import Mathlib.Data.Nat.Count
import FsRover.Io.Carrier
import FsRover.Lib.Memory
import FsRover.Lib.Rank

/-!
# Buffers of `.pmf` images

A "used sectors" backup keeps the allocated clusters only. `pmf.c` makes a bitmap of them: from the FAT,
from a bitmap in the stream, or from the bitmaps of the groups of ext4, and counts over it to find
where a cluster is in the stream. Here every access to the buffers is checked against their sizes.

## Main definitions

* `FsRover.pmfBuildFatMap`, `FsRover.pmfReadBitmap`, `FsRover.pmfSetupExt4` : the three ways.
* `FsRover.pmfBuild`, `FsRover.pmfMapSector` : the map of an image, and its use.
* `FsRover.PmfGroupsFit` : no group whose bitmap is read has more blocks than a block has bits.

## Main results

* `FsRover.pmfGroup_cases` : what the round of a group does.
* `FsRover.pmf_buffers_iff` : when no access leaves its buffer.
-/

namespace FsRover

open Outcome Memory

def PMF_E4_SB : ℕ := 1024
def PMF_E4_MAGIC : ℕ := 0xef53
def PMF_E4_GD_FREE : ℕ := 0x0c
def PMF_E4_GD_FLAGS : ℕ := 0x12
def PMF_E4_BG_BLOCK_UNINIT : ℕ := 2
def PMF_E4_GROUPS_MAX : ℕ := 2 ^ 20
def PMF_CLUSTERS_MAX : ℕ := 2 ^ 28
def PMF_PART_MAX : ℕ := 2 ^ 46
def PMF_RANK_GROUP : ℕ := 4096
/-- The piece of the FAT that `pmf_build_fat_map` reads at once. -/
def PMF_FAT_CHUNK : ℕ := 64 * 1024

/-- The running count, one entry for a group of clusters. -/
structure PmfRanks where
  len : ℕ
  count : ℕ → ℕ

/-- The fields of `struct pmf_image` that the map uses; `stream` is the size of the stream. -/
structure PmfImage where
  size : ℕ
  stream : ℕ
  bps : ℕ
  spc : ℕ
  metaSectors : ℕ
  firstLba : ℕ
  dataOff : ℕ
  nclusters : ℕ
  alloc : Mem
  rank : PmfRanks
  reserved : ℕ
  fatSize : ℕ
  fatEnd : ℕ

/-- What the stream gives: the bytes of a read, or its failure. The reads are numbered. -/
abbrev PmfStream : Type := ℕ → ℕ → ℕ → Except GrubError Buf

variable (stream : PmfStream)

/-- `pmf_stream_pread` into the front of a buffer. -/
def pmfStreamPread (call off len : ℕ) (into : Mem) : Outcome GrubError Mem :=
  if len ≤ into.len then
    match stream call off len with
    | .error e => failed e
    | .ok src => into.fill len src
  else fault

/-! ### The running count -/

def PmfRanks.get (r : PmfRanks) (g : ℕ) : Outcome GrubError ℕ := inside (g < r.len) (r.count g)

def PmfRanks.set (r : PmfRanks) (g n : ℕ) : Outcome GrubError PmfRanks :=
  inside (g < r.len) { r with count := fun k => if k = g then n else r.count k }

variable (img : PmfImage)

/-- `pmf_rank`: whole bytes, and the bits that are left. -/
def pmfRank (c : ℕ) : Outcome GrubError ℕ := do
  let first := c / PMF_RANK_GROUP * PMF_RANK_GROUP
  let n ← img.rank.get (c / PMF_RANK_GROUP)
  let whole := (c - first) / 8
  let n ← forRange (fun k n => do
    let b ← img.alloc.get ((first + 8 * k) / 8)
    done (n + Rank.popcount8 b)) 0 whole n
  forRange (fun i n => do
    let set ← img.alloc.testBit i
    done (n + set.toNat)) (first + 8 * whole) (c - (first + 8 * whole)) n

/-- `pmf_alloc_map`. -/
def pmfAllocMap : Outcome GrubError PmfImage :=
  if img.nclusters = 0 ∨ PMF_CLUSTERS_MAX < img.nclusters then
    failed ⟨.badDevice, "bad pmf cluster count"⟩
  else
    done { img with
      alloc := Mem.zeroed ((img.nclusters + 7) / 8 + 1)
      rank := ⟨img.nclusters / PMF_RANK_GROUP + 1, fun _ => 0⟩ }

/-- A round of `pmf_finish_map`, on the number of clusters seen and the running count. -/
def pmfCount (i : ℕ) (s : ℕ × PmfRanks) : Outcome GrubError (ℕ × PmfRanks) := do
  let rank ← if i % PMF_RANK_GROUP = 0 then s.2.set (i / PMF_RANK_GROUP) s.1 else done s.2
  let set ← img.alloc.testBit i
  done (s.1 + set.toNat, rank)

/-- `pmf_finish_map`. -/
def pmfFinishMap : Outcome GrubError PmfImage := do
  let (seen, rank) ← forRange (pmfCount img) 0 img.nclusters (0, img.rank)
  if u64 (seen * img.spc * img.bps) ≠ sub64 img.stream img.dataOff then
    failed ⟨.badDevice, "pmf used-cluster map does not fit the stream"⟩
  else done { img with rank }

/-! ### A bitmap in the stream -/

/-- `pmf_read_bitmap`. -/
def pmfReadBitmap (off len : ℕ) : Outcome GrubError PmfImage :=
  let want := (img.nclusters + 7) / 8
  if len < want ∨ (img.nclusters + 7) / 8 + img.bps < len then
    failed ⟨.badDevice, s!"bad pmf bitmap length {len}"⟩
  else do
    let alloc ← pmfStreamPread stream 0 off want img.alloc
    let alloc ← if img.nclusters % 8 ≠ 0 then
        alloc.modify (want - 1) (· &&& UInt8.ofNat (2 ^ (img.nclusters % 8) - 1))
      else done alloc
    done { img with alloc }

/-! ### The FAT -/

/-- The entry `k` of a piece of the FAT that begins with the entry `c`. -/
def pmfFatEntry (fat : Mem) (c k : ℕ) (alloc : Mem) : Outcome GrubError Mem :=
  if c + k < 2 then done alloc
  else do
    let entry ← fat.field (4 * k) 4
    if lostLe32 entry 0 % 2 ^ 28 = 0 then done alloc else alloc.setBit (c + k - 2)

/-- The loop of `pmf_build_fat_map` over the pieces. -/
def pmfFatChunks : ℕ → ℕ → ℕ → ℕ → ℕ → Mem → Mem → Outcome GrubError Mem
  | 0, _, _, _, _, _, alloc => done alloc
  | fuel + 1, call, off, left, c, fat, alloc =>
    if left = 0 ∨ img.nclusters + 2 ≤ c then done alloc
    else do
      let n := min left PMF_FAT_CHUNK
      let fat ← pmfStreamPread stream call off n fat
      let k := min (n / 4) (img.nclusters + 2 - c)
      let alloc ← forRange (pmfFatEntry fat c) 0 k alloc
      pmfFatChunks fuel (call + 1) (off + n) (left - n) (c + k) fat alloc

/-- `pmf_build_fat_map`. Every round takes a byte at least. -/
def pmfBuildFatMap : Outcome GrubError PmfImage := do
  let left := img.fatSize * img.bps
  let alloc ← pmfFatChunks stream img left 0 (img.reserved * img.bps) left 0 (Mem.zeroed PMF_FAT_CHUNK)
    img.alloc
  done { img with alloc }

/-! ### ext4 -/

/-- What the superblock says, as `pmf_setup_ext4` accepts it. -/
structure PmfExt4 where
  bs : ℕ
  blocks : ℕ
  bpg : ℕ
  first : ℕ
  groups : ℕ
  dsize : ℕ
  deriving DecidableEq

/-- The checks of the superblock in `pmf_setup_ext4`. -/
def pmfExt4 (sb : Buf) : Except GrubError PmfExt4 :=
  let bs := 1024 * 2 ^ lostLe32 sb 0x18
  let blocks := lostLe32 sb 0x04
  let bpg := lostLe32 sb 0x20
  let first := lostLe32 sb 0x14
  let dsize := if lostLe16 sb 0xfe = 0 then 32 else lostLe16 sb 0xfe
  let groups := u32 ((blocks - first + bpg - 1) / bpg)
  if lostLe16 sb 0x38 ≠ PMF_E4_MAGIC then
    .error ⟨.badFileType, "no ext4 superblock in the pmf stream"⟩
  else if 6 < lostLe32 sb 0x18 then .error ⟨.badDevice, "bad ext4 block size"⟩
  else if bs % img.bps ≠ 0 ∨ bpg = 0 ∨ blocks ≤ first ∨ dsize < 32 ∨ bs < dsize then
    .error ⟨.badDevice, "bad ext4 geometry"⟩
  else if groups = 0 ∨ PMF_E4_GROUPS_MAX < groups then .error ⟨.badDevice, "bad ext4 group count"⟩
  else if img.metaSectors * img.bps < PMF_E4_SB + 1024 then
    .error ⟨.badDevice, "unexpected pmf metadata region"⟩
  else .ok ⟨bs, blocks, bpg, first, groups, dsize⟩

/-- The first block of a group. -/
def PmfExt4.base (geo : PmfExt4) (g : ℕ) : ℕ := geo.first + g * geo.bpg

/-- The blocks of a group. -/
def PmfExt4.count (geo : PmfExt4) (g : ℕ) : ℕ := min geo.bpg (geo.blocks - geo.base g)

/-- The bitmap of a group is in the stream. -/
def PmfExt4.Stored (geo : PmfExt4) (gd : Buf) (g : ℕ) : Prop :=
  lostLe16 gd (g * geo.dsize + PMF_E4_GD_FLAGS) &&& PMF_E4_BG_BLOCK_UNINIT = 0

instance (geo : PmfExt4) (gd : Buf) : DecidablePred (geo.Stored gd) := fun _ =>
  inferInstanceAs (Decidable (_ = _))

/-- What is read for a group with a bitmap; `kept` such groups come before it. -/
def pmfGroupBits (geo : PmfExt4) (sec kept : ℕ) : Except GrubError Buf :=
  stream (2 + kept) (sec + kept * geo.bs) geo.bs

/-- A round of the loop over the groups, on the allocation bitmap, the number of bitmaps read, and the
block for them. -/
def pmfGroup (geo : PmfExt4) (gd : Mem) (sec g : ℕ) (s : Mem × ℕ × Mem) :
    Outcome GrubError (Mem × ℕ × Mem) := do
  let flags ← gd.field (g * geo.dsize + PMF_E4_GD_FLAGS) 2
  if lostLe16 flags 0 &&& PMF_E4_BG_BLOCK_UNINIT ≠ 0 then do
    -- nothing but the metadata at the front is in use
    let free ← gd.field (g * geo.dsize + PMF_E4_GD_FREE) 2
    let used := min (sub32 geo.bpg (lostLe16 free 0)) (geo.count g)
    let alloc ← forRange (fun i alloc => alloc.setBit (geo.base g + i)) 0 used s.1
    done (alloc, s.2)
  else do
    let bm ← pmfStreamPread stream (2 + s.2.1) (sec + s.2.1 * geo.bs) geo.bs s.2.2
    let alloc ← forRange (fun i alloc => do
      let set ← bm.testBit i
      if set then alloc.setBit (geo.base g + i) else done alloc) 0 (geo.count g) s.1
    done (alloc, s.2.1 + 1, bm)

/-- How many of the group descriptors have a bitmap. -/
def pmfCountStored (geo : PmfExt4) (gd : Mem) : Outcome GrubError ℕ :=
  forRange (fun g n => do
    let flags ← gd.field (g * geo.dsize + PMF_E4_GD_FLAGS) 2
    done (if lostLe16 flags 0 &&& PMF_E4_BG_BLOCK_UNINIT = 0 then n + 1 else n)) 0 geo.groups 0

/-- Where the bitmaps begin in the stream. -/
def pmfBitmapsOff (geo : PmfExt4) : ℕ := img.metaSectors * img.bps + geo.groups * geo.dsize

/-- The image with the geometry of ext4. -/
def pmfExt4Image (geo : PmfExt4) : PmfImage :=
  { img with
    spc := geo.bs / img.bps
    firstLba := 0
    nclusters := geo.blocks
    size := geo.blocks * geo.bs }

/-- `pmf_setup_ext4`. -/
def pmfSetupExt4 : Outcome GrubError PmfImage := do
  let sb ← ofExcept (stream 0 PMF_E4_SB 1024)
  let geo ← ofExcept (pmfExt4 img sb)
  let img ← pmfAllocMap (pmfExt4Image img geo)
  let gd ← pmfStreamPread stream 1 (img.metaSectors * img.bps) (geo.groups * geo.dsize)
    (Mem.zeroed (geo.groups * geo.dsize))
  let sec := pmfBitmapsOff img geo
  let stored ← pmfCountStored geo gd
  let alloc ← forRange (fun g alloc => alloc.setBit g) 0 geo.first img.alloc
  let (alloc, _) ← forRange (pmfGroup stream geo gd sec) 0 geo.groups (alloc, 0, Mem.zeroed geo.bs)
  done { img with alloc, dataOff := sec + stored * geo.bs }

/-! ### Using the map -/

/-- Where the allocation bitmap of an image is from. -/
inductive PmfMap
  | fat
  | bitmap (off len : ℕ)
  | ext4

/-- The end of `pmf_open_image`: the map of an image whose geometry is known, ext4 apart, and the
running count. -/
def pmfBuild : PmfMap → Outcome GrubError PmfImage
  | how => do
    let img ← match how with
      | .fat => do
        let img ← pmfAllocMap img
        pmfBuildFatMap stream img
      | .bitmap off len => do
        let img ← pmfAllocMap img
        pmfReadBitmap stream img off len
      | .ext4 => pmfSetupExt4 stream img
    if PMF_PART_MAX < img.size then failed ⟨.badDevice, "bad pmf partition size"⟩
    else pmfFinishMap img

/-- `pmf_map_sector`: the place in the stream, if the sector is stored, and the number of sectors that
keep following it. -/
def pmfMapSector (lba : ℕ) : Outcome GrubError (Option ℕ × ℕ) :=
  if lba < img.metaSectors then done (some (lba * img.bps), img.metaSectors - lba)
  else if lba < img.fatEnd then
    let s := u32 (sub64 lba img.reserved) % img.fatSize
    done (some ((img.reserved + s) * img.bps), img.fatSize - s)
  else if lba < img.firstLba then done (none, img.firstLba - lba)
  else
    let c := u32 ((lba - img.firstLba) / img.spc)
    let inCluster := (lba - img.firstLba) % img.spc
    if img.nclusters ≤ c then done (none, img.spc - inCluster)
    else do
      let set ← img.alloc.testBit c
      if set then do
        let n ← pmfRank img c
        done (some (img.dataOff + (n * img.spc + inCluster) * img.bps), img.spc - inCluster)
      else done (none, img.spc - inCluster)

/-- No access leaves its buffer, neither when the map is made nor when it is used. -/
def PmfBuffersOk (how : PmfMap) : Prop :=
  pmfBuild stream img how ≠ fault
    ∧ ∀ built, pmfBuild stream img how = done built → ∀ lba, pmfMapSector built lba ≠ fault

/-- A group has no more blocks than a block has bits, if its bitmap is read: the bitmaps of the groups
up to it can be. -/
def PmfGroupFits (geo : PmfExt4) (gd : Buf) (sec g : ℕ) : Prop :=
  geo.Stored gd g →
    (∀ k ≤ g, geo.Stored gd k →
      (pmfGroupBits stream geo sec (Nat.count (geo.Stored gd) k)).isOk = true) →
    geo.count g ≤ 8 * geo.bs

/-- So it is in all groups of an ext4 image that gets as far as the loop over them. -/
def PmfGroupsFit : Prop :=
  ∀ sb geo gd, stream 0 PMF_E4_SB 1024 = .ok sb → pmfExt4 img sb = .ok geo →
    0 < geo.blocks → geo.blocks ≤ PMF_CLUSTERS_MAX →
    pmfStreamPread stream 1 (img.metaSectors * img.bps) (geo.groups * geo.dsize)
      (Mem.zeroed (geo.groups * geo.dsize)) = done gd →
    ∀ g < geo.groups, PmfGroupFits stream geo gd.byte (pmfBitmapsOff img geo) g

variable {stream img}

/-! ### The running count and its use -/

/-- The buffers have the sizes that `pmf_alloc_map` gives them. -/
structure PmfImage.Mapped (img : PmfImage) : Prop where
  alloc_len : img.alloc.len = (img.nclusters + 7) / 8 + 1
  rank_len : img.rank.len = img.nclusters / PMF_RANK_GROUP + 1

theorem PmfImage.Mapped.bit (h : img.Mapped) {c : ℕ} (hc : c < img.nclusters) :
    c / 8 < img.alloc.len := by
  have hlen := h.alloc_len
  omega

theorem pmfAllocMap_safe : (pmfAllocMap img).Safe fun built =>
    built.Mapped ∧ ∃ alloc rank, built = { img with alloc, rank } := by
  rw [pmfAllocMap]
  split_ifs
  · trivial
  · exact ⟨⟨rfl, rfl⟩, _, _, rfl⟩

theorem pmfCount_safe (h : img.Mapped) {i : ℕ} (hi : i < img.nclusters) {s : ℕ × PmfRanks}
    (hs : s.2.len = img.rank.len) : (pmfCount img i s).Safe fun s' => s'.2.len = img.rank.len := by
  have hrank : i / PMF_RANK_GROUP < s.2.len := by
    rw [hs, h.rank_len, Nat.lt_succ_iff]
    exact Nat.div_le_div_right (Nat.le_of_lt hi)
  have hbit : ∀ rank : PmfRanks, rank.len = img.rank.len → (do
      let set ← img.alloc.testBit i
      done (s.1 + set.toNat, rank) : Outcome GrubError (ℕ × PmfRanks)).Safe
        fun s' => s'.2.len = img.rank.len := fun rank hr => by
    rw [testBit_of_lt (h.bit hi), done_bind]
    exact hr
  rw [pmfCount]
  split_ifs
  · exact Safe.bind (Q := fun rank : PmfRanks => rank.len = img.rank.len) (safe_inside hrank hs) hbit
  · exact hbit s.2 hs

theorem pmfFinishMap_safe (h : img.Mapped) : (pmfFinishMap img).Safe PmfImage.Mapped := by
  rw [pmfFinishMap]
  refine Safe.bind (Q := fun s : ℕ × PmfRanks => s.2.len = img.rank.len) ?_ fun s hs => ?_
  · exact Safe.forRange (I := fun _ (s : ℕ × PmfRanks) => s.2.len = img.rank.len)
      (fun k s _ hk hs => pmfCount_safe h (by omega) hs) rfl
  · dsimp only
    split_ifs
    · trivial
    · exact ⟨h.alloc_len, hs.trans h.rank_len⟩

theorem pmfRank_safe (h : img.Mapped) {c : ℕ} (hc : c < img.nclusters) :
    (pmfRank img c).Safe fun _ => True := by
  have hfirst : c / PMF_RANK_GROUP * PMF_RANK_GROUP ≤ c := Nat.div_mul_le_self c _
  have hrank : c / PMF_RANK_GROUP < img.rank.len := by
    rw [h.rank_len, Nat.lt_succ_iff]
    exact Nat.div_le_div_right (Nat.le_of_lt hc)
  rw [pmfRank]
  dsimp only
  generalize c / PMF_RANK_GROUP * PMF_RANK_GROUP = first at *
  refine Safe.bind (Q := fun _ => True) (safe_inside hrank trivial) fun n _ => ?_
  refine Safe.bind (Q := fun _ => True) ?_ fun n _ => ?_
  · refine Safe.forRange (I := fun _ _ => True) (fun k n _ hk _ => ?_) trivial
    rw [get_of_lt (h.bit (by omega)), done_bind]
    trivial
  · refine Safe.forRange (I := fun _ _ => True) (fun i n _ hi _ => ?_) trivial
    rw [testBit_of_lt (h.bit (by omega)), done_bind]
    trivial

theorem pmfMapSector_safe (h : img.Mapped) (lba : ℕ) : (pmfMapSector img lba).Safe fun _ => True := by
  rw [pmfMapSector]
  split_ifs
  · trivial
  · trivial
  · trivial
  · dsimp only
    split_ifs with hout
    · trivial
    · rw [testBit_of_lt (h.bit (Nat.lt_of_not_le hout)), done_bind]
      split_ifs
      · exact Safe.bind (pmfRank_safe h (Nat.lt_of_not_le hout)) fun _ _ => trivial
      · trivial

/-! ### Filling the bitmap -/

theorem pmfStreamPread_safe {call off len : ℕ} {into : Mem} (h : len ≤ into.len) :
    (pmfStreamPread stream call off len into).Safe fun m => m.len = into.len := by
  rw [pmfStreamPread, if_pos h]
  cases stream call off len with
  | error e => trivial
  | ok src => exact safe_inside h rfl

theorem safe_setBit {m : Mem} {bit : ℕ} (h : bit / 8 < m.len) :
    (m.setBit bit : Outcome GrubError Mem).Safe fun m' => m'.len = m.len :=
  safe_inside h rfl

theorem pmfReadBitmap_safe (h : img.Mapped) {off len : ℕ} :
    (pmfReadBitmap stream img off len).Safe PmfImage.Mapped := by
  have halloc := h.alloc_len
  rw [pmfReadBitmap]
  dsimp only
  by_cases hlen : len < (img.nclusters + 7) / 8 ∨ (img.nclusters + 7) / 8 + img.bps < len
  · rw [if_pos hlen]
    trivial
  · rw [if_neg hlen]
    refine Safe.bind (pmfStreamPread_safe (by omega)) fun alloc ha => ?_
    have hbuilt : ∀ m : Mem, m.len = img.alloc.len → { img with alloc := m }.Mapped :=
      fun m hm => ⟨hm.trans h.alloc_len, h.rank_len⟩
    by_cases hpart : img.nclusters % 8 ≠ 0
    · rw [if_pos hpart]
      exact Safe.bind (Q := fun m : Mem => m.len = img.alloc.len) (safe_inside (by omega) ha) hbuilt
    · rw [if_neg hpart]
      exact hbuilt alloc ha

theorem pmfFatEntry_safe (h : img.Mapped) {fat alloc : Mem} {c k : ℕ} (hfat : 4 * k + 4 ≤ fat.len)
    (hc : c + k < img.nclusters + 2) (ha : alloc.len = img.alloc.len) :
    (pmfFatEntry fat c k alloc).Safe fun m => m.len = img.alloc.len := by
  rw [pmfFatEntry]
  split_ifs with hreserved
  · exact ha
  · rw [field_of_le hfat, done_bind]
    split_ifs
    · exact ha
    · have hbit := h.bit (show c + k - 2 < img.nclusters by omega)
      exact (safe_setBit (ha ▸ hbit)).mono fun m hm => hm.trans ha

theorem pmfFatChunks_safe (h : img.Mapped) : ∀ {fuel call off left c : ℕ} {fat alloc : Mem},
    fat.len = PMF_FAT_CHUNK → alloc.len = img.alloc.len →
      (pmfFatChunks stream img fuel call off left c fat alloc).Safe fun m => m.len = img.alloc.len
  | 0, _, _, _, _, _, _, _, ha => ha
  | fuel + 1, call, off, left, c, fat, alloc, hfat, ha => by
    rw [pmfFatChunks]
    split_ifs with hend
    · exact ha
    · dsimp only
      refine Safe.bind (pmfStreamPread_safe (by omega)) fun fat' hf => ?_
      refine Safe.bind (Q := fun m : Mem => m.len = img.alloc.len) ?_ fun alloc' ha' => ?_
      · exact Safe.forRange (I := fun _ (m : Mem) => m.len = img.alloc.len)
          (fun k m _ hk hm => pmfFatEntry_safe h (by omega) (by omega) hm) ha
      · exact pmfFatChunks_safe h (hf.trans hfat) ha'

theorem pmfBuildFatMap_safe (h : img.Mapped) :
    (pmfBuildFatMap stream img).Safe PmfImage.Mapped := by
  rw [pmfBuildFatMap]
  exact Safe.bind (pmfFatChunks_safe h rfl rfl) fun alloc ha =>
    ⟨ha.trans h.alloc_len, h.rank_len⟩

/-! ### The groups of ext4 -/

theorem pmfExt4_ok {sb : Buf} {geo : PmfExt4} (h : pmfExt4 img sb = .ok geo) :
    32 ≤ geo.dsize ∧ geo.first < geo.blocks ∧ ∀ g < geo.groups, geo.base g < geo.blocks := by
  rw [pmfExt4] at h
  generalize (if lostLe16 sb 0xfe = 0 then 32 else lostLe16 sb 0xfe) = dsize at h
  split_ifs at h with hmagic hlog hgeo hgroups hmeta
  obtain rfl := Except.ok.inj h
  refine ⟨by dsimp only; omega, by dsimp only; omega, fun g hg => ?_⟩
  dsimp only [PmfExt4.base] at hg ⊢
  have hbpg : 0 < lostLe32 sb 0x20 := by omega
  have hle : g + 1 ≤ (lostLe32 sb 0x04 - lostLe32 sb 0x14 + lostLe32 sb 0x20 - 1) / lostLe32 sb 0x20 :=
    Nat.le_trans hg (Nat.mod_le _ _)
  rw [Nat.le_div_iff_mul_le hbpg, Nat.add_mul, Nat.one_mul] at hle
  omega

theorem lostLe16_at (p : Buf) (i : ℕ) : lostLe16 (fun k => p (i + k)) 0 = lostLe16 p i := rfl

/-- The round of a group with a bitmap reads it, and leaves the memory if the group has more blocks than
the block has bits; the round of another one returns. -/
theorem pmfGroup_cases {geo : PmfExt4} {gd : Mem} {sec g : ℕ} {s : Mem × ℕ × Mem}
    (hgd : gd.len = geo.groups * geo.dsize) (hdsize : 32 ≤ geo.dsize) (hg : g < geo.groups)
    (halloc : ∀ bit < geo.blocks, bit / 8 < s.1.len) (hbm : s.2.2.len = geo.bs) :
    (¬ geo.Stored gd.byte g
        ∧ ∃ alloc, alloc.len = s.1.len ∧ pmfGroup stream geo gd sec g s = done (alloc, s.2))
      ∨ (geo.Stored gd.byte g ∧ (pmfGroupBits stream geo sec s.2.1).isOk = false
        ∧ ∃ e, pmfGroup stream geo gd sec g s = failed e)
      ∨ (geo.Stored gd.byte g ∧ (pmfGroupBits stream geo sec s.2.1).isOk = true
        ∧ geo.count g ≤ 8 * geo.bs ∧ ∃ alloc bm, alloc.len = s.1.len ∧ bm.len = geo.bs
          ∧ pmfGroup stream geo gd sec g s = done (alloc, s.2.1 + 1, bm))
      ∨ (geo.Stored gd.byte g ∧ (pmfGroupBits stream geo sec s.2.1).isOk = true
        ∧ 8 * geo.bs < geo.count g ∧ pmfGroup stream geo gd sec g s = fault) := by
  have hdesc : (g + 1) * geo.dsize ≤ geo.groups * geo.dsize := Nat.mul_le_mul_right _ hg
  rw [Nat.add_mul, Nat.one_mul] at hdesc
  have hbit : ∀ i < geo.count g, (geo.base g + i) / 8 < s.1.len := fun i hi => by
    rw [PmfExt4.count] at hi
    exact halloc _ (by omega)
  have hflagsOff : PMF_E4_GD_FLAGS = 0x12 := rfl
  have hfreeOff : PMF_E4_GD_FREE = 0x0c := rfl
  rw [pmfGroup, field_of_le (by omega), done_bind]
  rw [lostLe16_at]
  by_cases hstored : geo.Stored gd.byte g
  · have hset : ¬ lostLe16 gd.byte (g * geo.dsize + PMF_E4_GD_FLAGS) &&& PMF_E4_BG_BLOCK_UNINIT ≠ 0 :=
      not_not_intro hstored
    rw [if_neg hset]
    refine .inr ?_
    rw [pmfGroupBits, pmfStreamPread, if_pos (Nat.le_of_eq hbm.symm)]
    cases stream (2 + s.2.1) (sec + s.2.1 * geo.bs) geo.bs with
    | error e => exact .inl ⟨hstored, rfl, e, rfl⟩
    | ok src =>
      refine .inr ?_
      obtain ⟨bm, hfill, hlen⟩ := @fill_of_le GrubError s.2.2 geo.bs src (Nat.le_of_eq hbm.symm)
      simp only [hfill, done_bind]
      have hround : ∀ i m, i < geo.count g → i < 8 * geo.bs → m.len = s.1.len →
          ∃ m', (do
            let set ← bm.testBit i
            if set then m.setBit (geo.base g + i) else done m : Outcome GrubError Mem) = done m'
              ∧ m'.len = s.1.len := by
        intro i m hi hi' hm
        rw [testBit_of_lt (by omega), done_bind]
        split_ifs
        · obtain ⟨m', hset, hm'⟩ := @setBit_of_lt GrubError m (geo.base g + i) (hm ▸ hbit i hi)
          exact ⟨m', hset, hm'.trans hm⟩
        · exact ⟨m, rfl, hm⟩
      by_cases hfits : geo.count g ≤ 8 * geo.bs
      · obtain ⟨alloc, hloop, ha⟩ := forRange_done (i := 0) (n := geo.count g)
          (fun i m _ hi hm => hround i m (by omega) (by omega) hm) rfl
        exact .inl ⟨hstored, rfl, hfits, alloc, bm, ha, hlen.trans hbm, by rw [hloop, done_bind]⟩
      · refine .inr ⟨hstored, rfl, Nat.lt_of_not_le hfits, ?_⟩
        rw [forRange_fault (i := 0) (m := 8 * geo.bs) (Nat.lt_of_not_le hfits)
          (fun i m _ hi hm => hround i m (by omega) (by omega) hm) (fun m _ => ?_) rfl, fault_bind]
        rw [testBit_of_le (by omega), fault_bind]
  · have hclear : lostLe16 gd.byte (g * geo.dsize + PMF_E4_GD_FLAGS) &&& PMF_E4_BG_BLOCK_UNINIT ≠ 0 :=
      hstored
    rw [if_pos hclear, field_of_le (by omega), done_bind, lostLe16_at]
    refine .inl ⟨hstored, ?_⟩
    dsimp only
    generalize sub32 geo.bpg (lostLe16 gd.byte (g * geo.dsize + PMF_E4_GD_FREE)) = used
    have hround : ∀ i (m : Mem), 0 ≤ i → i < 0 + min used (geo.count g) → m.len = s.1.len →
        ∃ m', (m.setBit (geo.base g + i) : Outcome GrubError Mem) = done m' ∧ m'.len = s.1.len := by
      intro i m _ hi hm
      have hlt : (geo.base g + i) / 8 < m.len := hm ▸ hbit i (by omega)
      obtain ⟨m', hset, hm'⟩ := @setBit_of_lt GrubError m (geo.base g + i) hlt
      exact ⟨m', hset, hm'.trans hm⟩
    obtain ⟨alloc, hloop, ha⟩ := forRange_done hround rfl
    exact ⟨alloc, ha, by rw [hloop, done_bind]⟩

/-- The loop over the groups leaves the memory exactly if one of them does not fit; `g` groups are
behind it. -/
theorem pmfGroups_spec {geo : PmfExt4} {gd : Mem} {sec : ℕ} (hgd : gd.len = geo.groups * geo.dsize)
    (hdsize : 32 ≤ geo.dsize) : ∀ {n g : ℕ} {s : Mem × ℕ × Mem}, g + n ≤ geo.groups →
      (∀ bit < geo.blocks, bit / 8 < s.1.len) → s.2.2.len = geo.bs →
      s.2.1 = Nat.count (geo.Stored gd.byte) g →
      (∀ k < g, geo.Stored gd.byte k →
        (pmfGroupBits stream geo sec (Nat.count (geo.Stored gd.byte) k)).isOk = true) →
      ((∀ k, g ≤ k → k < g + n → PmfGroupFits stream geo gd.byte sec k) →
        (forRange (pmfGroup stream geo gd sec) g n s).Safe fun s' => s'.1.len = s.1.len)
        ∧ ((¬ ∀ k, g ≤ k → k < g + n → PmfGroupFits stream geo gd.byte sec k) →
          forRange (pmfGroup stream geo gd sec) g n s = fault)
  | 0, g, s, _, _, _, _, _ =>
    ⟨fun _ => rfl, fun hnot => absurd (fun k hk hlt => absurd hlt (by omega)) hnot⟩
  | n + 1, g, s, hg, halloc, hbm, hkept, hread => by
    -- the groups that are left, once this one is known to fit
    have hnext : PmfGroupFits stream geo gd.byte sec g →
        ((∀ k, g ≤ k → k < g + (n + 1) → PmfGroupFits stream geo gd.byte sec k)
          ↔ ∀ k, g + 1 ≤ k → k < g + 1 + n → PmfGroupFits stream geo gd.byte sec k) := fun hfit => by
      refine ⟨fun h k hk hlt => h k (by omega) (by omega), fun h k hk hlt => ?_⟩
      rcases Nat.eq_or_lt_of_le hk with rfl | hgt
      · exact hfit
      · exact h k hgt (by omega)
    rw [forRange]
    have hlt : g < geo.groups := by omega
    rcases @pmfGroup_cases stream geo gd sec g s hgd hdsize hlt halloc hbm with
      ⟨hskip, alloc, hlen, hstep⟩ | ⟨hstored, hfails, e, hstep⟩
        | ⟨hstored, hok, hle, alloc, bm, hlen, hbm', hstep⟩ | ⟨hstored, hok, hlt, hstep⟩
    · rw [hstep, done_bind, hnext fun h => absurd h hskip]
      have hcount : Nat.count (geo.Stored gd.byte) (g + 1) = Nat.count (geo.Stored gd.byte) g := by
        rw [Nat.count_succ, if_neg hskip, Nat.add_zero]
      have ih := @pmfGroups_spec geo gd sec hgd hdsize n (g + 1) (alloc, s.2) (by omega)
        (fun bit hbit => by rw [hlen]; exact halloc bit hbit) hbm (by rw [hcount, ← hkept])
        fun k hk hks => by
          rcases Nat.eq_or_lt_of_le (Nat.le_of_lt_succ hk) with rfl | hlt
          · exact absurd hks hskip
          · exact hread k hlt hks
      rwa [hlen] at ih
    · rw [hstep, failed_bind]
      refine ⟨fun _ => trivial, fun hnot => absurd (fun k hk hlt _ hall => ?_) hnot⟩
      have hok := hall g hk hstored
      rw [← hkept, hfails] at hok
      cases hok
    · rw [hstep, done_bind, hnext fun _ _ => hle]
      have hcount : Nat.count (geo.Stored gd.byte) (g + 1) = Nat.count (geo.Stored gd.byte) g + 1 := by
        rw [Nat.count_succ, if_pos hstored]
      have ih := @pmfGroups_spec geo gd sec hgd hdsize n (g + 1) (alloc, s.2.1 + 1, bm) (by omega)
        (fun bit hbit => by rw [hlen]; exact halloc bit hbit) hbm' (by rw [hcount, ← hkept])
        fun k hk hks => by
          rcases Nat.eq_or_lt_of_le (Nat.le_of_lt_succ hk) with rfl | hlt
          · rwa [← hkept]
          · exact hread k hlt hks
      rwa [hlen] at ih
    · rw [hstep, fault_bind]
      refine ⟨fun hall => absurd (hall g (Nat.le_refl g) (by omega) hstored fun k hk hks => ?_)
        (Nat.not_le_of_lt hlt), fun _ => rfl⟩
      rcases Nat.eq_or_lt_of_le hk with rfl | hlt'
      · rwa [← hkept]
      · exact hread k hlt' hks

theorem pmfCountStored_done {geo : PmfExt4} {gd : Mem} (hgd : gd.len = geo.groups * geo.dsize)
    (hdsize : 32 ≤ geo.dsize) : ∃ n, pmfCountStored geo gd = done n := by
  have hround : ∀ g n, 0 ≤ g → g < 0 + geo.groups → True → ∃ n', (do
      let flags ← gd.field (g * geo.dsize + PMF_E4_GD_FLAGS) 2
      done (if lostLe16 flags 0 &&& PMF_E4_BG_BLOCK_UNINIT = 0 then n + 1 else n) : Outcome GrubError ℕ)
        = done n' ∧ True := by
    intro g n _ hg _
    have hdesc : (g + 1) * geo.dsize ≤ geo.groups * geo.dsize := Nat.mul_le_mul_right _ (by omega)
    rw [Nat.add_mul, Nat.one_mul] at hdesc
    have hflagsOff : PMF_E4_GD_FLAGS = 0x12 := rfl
    rw [field_of_le (by omega), done_bind]
    exact ⟨_, rfl, trivial⟩
  obtain ⟨n, hloop, -⟩ := forRange_done hround trivial
  exact ⟨n, hloop⟩

/-- `pmf_setup_ext4` leaves the memory exactly if a group does not fit. -/
theorem pmfSetupExt4_spec :
    (PmfGroupsFit stream img → (pmfSetupExt4 stream img).Safe PmfImage.Mapped)
      ∧ (¬ PmfGroupsFit stream img → pmfSetupExt4 stream img = fault) := by
  rw [pmfSetupExt4]
  cases hsb : stream 0 PMF_E4_SB 1024 with
  | error e =>
    refine ⟨fun _ => trivial, fun hnot => absurd (fun sb geo gd h => ?_) hnot⟩
    rw [hsb] at h
    cases h
  | ok sb =>
  rw [ofExcept_ok, done_bind]
  cases hgeo : pmfExt4 img sb with
  | error e =>
    refine ⟨fun _ => trivial, fun hnot => absurd (fun sb' geo gd h h' => ?_) hnot⟩
    rw [hsb] at h
    obtain rfl := Except.ok.inj h
    rw [hgeo] at h'
    cases h'
  | ok geo =>
  obtain ⟨hdsize, hfirst, hbase⟩ := pmfExt4_ok hgeo
  rw [ofExcept_ok, done_bind, pmfAllocMap]
  have hblocks : (pmfExt4Image img geo).nclusters = geo.blocks := rfl
  rw [hblocks]
  by_cases hmax : geo.blocks = 0 ∨ PMF_CLUSTERS_MAX < geo.blocks
  · rw [if_pos hmax]
    refine ⟨fun _ => trivial, fun hnot => absurd (fun sb' geo' gd h h' hpos hle => ?_) hnot⟩
    rw [hsb] at h
    obtain rfl := Except.ok.inj h
    rw [hgeo] at h'
    obtain rfl := Except.ok.inj h'
    omega
  rw [if_neg hmax, done_bind]
  have hmeta : (pmfExt4Image img geo).metaSectors * (pmfExt4Image img geo).bps
      = img.metaSectors * img.bps := rfl
  dsimp only
  rw [hmeta]
  have hsafe := @pmfStreamPread_safe stream 1 (img.metaSectors * img.bps) (geo.groups * geo.dsize)
    (Mem.zeroed (geo.groups * geo.dsize)) (Nat.le_refl _)
  cases hgdRead : pmfStreamPread stream 1 (img.metaSectors * img.bps) (geo.groups * geo.dsize)
      (Mem.zeroed (geo.groups * geo.dsize)) with
  | failed e =>
    refine ⟨fun _ => trivial, fun hnot => absurd (fun sb' geo' gd h h' _ _ hgd => ?_) hnot⟩
    rw [hsb] at h
    obtain rfl := Except.ok.inj h
    rw [hgeo] at h'
    obtain rfl := Except.ok.inj h'
    rw [hgdRead] at hgd
    cases hgd
  | fault =>
    rw [hgdRead] at hsafe
    exact absurd hsafe (fun h => h)
  | deep =>
    refine ⟨fun _ => trivial, fun hnot => absurd (fun sb' geo' gd h h' _ _ hgd => ?_) hnot⟩
    rw [hsb] at h
    obtain rfl := Except.ok.inj h
    rw [hgeo] at h'
    obtain rfl := Except.ok.inj h'
    rw [hgdRead] at hgd
    cases hgd
  | done gd =>
  rw [hgdRead] at hsafe
  have hgd : gd.len = geo.groups * geo.dsize := hsafe
  obtain ⟨stored, hstored⟩ := pmfCountStored_done hgd hdsize
  rw [done_bind, hstored, done_bind]
  have hround : ∀ g (m : Mem), 0 ≤ g → g < 0 + geo.first → m.len = (geo.blocks + 7) / 8 + 1 →
      ∃ m', (m.setBit g : Outcome GrubError Mem) = done m' ∧ m'.len = (geo.blocks + 7) / 8 + 1 := by
    intro g m _ hg hm
    obtain ⟨m', hset, hm'⟩ := @setBit_of_lt GrubError m g (by omega)
    exact ⟨m', hset, hm'.trans hm⟩
  obtain ⟨alloc, hloop, halloc⟩ := forRange_done (a := Mem.zeroed ((geo.blocks + 7) / 8 + 1)) hround rfl
  rw [hloop, done_bind]
  obtain ⟨hfit, hnofit⟩ := @pmfGroups_spec stream geo gd (pmfBitmapsOff img geo) hgd hdsize geo.groups 0
    (alloc, 0, Mem.zeroed geo.bs) (by omega) (fun bit hbit => by rw [halloc]; omega) rfl
    (Nat.count_zero _).symm (fun k hk => absurd hk (Nat.not_lt_zero k))
  constructor
  · intro h
    refine Safe.bind (hfit fun k _ hk => h sb geo gd hsb hgeo (by omega) (by omega) hgdRead k (by omega))
      fun s hs => ⟨hs.trans halloc, rfl⟩
  · intro h
    refine congrArg (· >>= _) (hnofit fun hall => h fun sb' geo' gd' h h' _ _ hgd' k hk => ?_)
    rw [hsb] at h
    obtain rfl := Except.ok.inj h
    rw [hgeo] at h'
    obtain rfl := Except.ok.inj h'
    rw [hgdRead] at hgd'
    obtain rfl := Outcome.done.inj hgd'
    exact hall k (Nat.zero_le k) (by omega)

/-! ### The result -/

/-- An image whose map is made without leaving the memory is used without leaving it. -/
theorem pmfBuffersOk_of_safe {how : PmfMap}
    (h : (pmfBuild stream img how).Safe PmfImage.Mapped) : PmfBuffersOk stream img how := by
  refine ⟨h.ne_fault, fun built hbuilt lba => ?_⟩
  rw [hbuilt] at h
  exact (pmfMapSector_safe h lba).ne_fault

theorem pmfBuild_end {built : PmfImage} (h : built.Mapped) :
    (if PMF_PART_MAX < built.size then failed ⟨.badDevice, "bad pmf partition size"⟩
      else pmfFinishMap built : Outcome GrubError PmfImage).Safe PmfImage.Mapped := by
  split_ifs
  · trivial
  · exact pmfFinishMap_safe h

/-- No access leaves its buffer, unless a group of ext4 whose bitmap is read has more blocks than the
block for the bitmap has bits. -/
theorem pmf_buffers_iff (how : PmfMap) :
    PmfBuffersOk stream img how ↔ (how = .ext4 → PmfGroupsFit stream img) := by
  obtain ⟨hfit, hnofit⟩ := @pmfSetupExt4_spec stream img
  cases how with
  | fat =>
    refine iff_of_true (pmfBuffersOk_of_safe ?_) fun h => by cases h
    exact Safe.bind pmfAllocMap_safe fun _ h => Safe.bind (pmfBuildFatMap_safe h.1) fun _ => pmfBuild_end
  | bitmap off len =>
    refine iff_of_true (pmfBuffersOk_of_safe ?_) fun h => by cases h
    exact Safe.bind pmfAllocMap_safe fun _ h => Safe.bind (pmfReadBitmap_safe h.1) fun _ => pmfBuild_end
  | ext4 =>
    refine ⟨fun h _ => by_contra fun hnot => h.1 ?_, fun h => pmfBuffersOk_of_safe ?_⟩
    · exact congrArg (· >>= _) (hnofit hnot)
    · exact Safe.bind (hfit (h rfl)) fun _ => pmfBuild_end

/-! ### A group that is larger than its bitmap -/

/-- The stream of a backup without compression: the rest of the file from `start` on. -/
def pmfRawStream (file : GrubFile) (start : ℕ) : PmfStream := fun call off len =>
  if len = 0 then .ok fun _ => 0
  else if file.size - start < off + len then
    .error ⟨.outOfRange, "read past the end of the pmf stream"⟩
  else (file.pread call (start + off) len ⟨.badDevice, "pmf image truncated"⟩).mapError Prod.fst

/-- The image at the start of `pmf_setup_ext4`, with four sectors in front. -/
def pmfExt4Fresh (stream : ℕ) : PmfImage where
  size := 0
  stream := stream
  bps := 512
  spc := 0
  metaSectors := 4
  firstLba := 0
  dataOff := 0
  nclusters := 0
  alloc := Mem.zeroed 0
  rank := ⟨0, fun _ => 0⟩
  reserved := 0
  fatSize := 0
  fatEnd := 0

/-- A file system of 8193 blocks of 1024 bytes in one group. -/
def pmfLargeGroup : GrubFile where
  size := 1540 + 3104
  byte := Buf.ofFields [(1540 + 1024 + 0x04, [1, 0x20]), (1540 + 1024 + 0x20, [1, 0x20]),
    (1540 + 1024 + 0x38, [0x53, 0xef])]
  fault := fun _ _ => none
  size_lt := by decide

/-- The bitmap of the group has 8192 bits, and the code reads 8193. -/
theorem pmf_large_group :
    ¬ PmfBuffersOk (pmfRawStream pmfLargeGroup 1540) (pmfExt4Fresh 3104) .ext4 := by
  have hread : ∀ call off len, len ≠ 0 → off + len ≤ 3104 →
      pmfRawStream pmfLargeGroup 1540 call off len = .ok (pmfLargeGroup.byte.from (1540 + off)) := by
    intro call off len hlen hend
    have hsize : pmfLargeGroup.size = 1540 + 3104 := rfl
    rw [pmfRawStream, if_neg hlen, if_neg (by omega),
      GrubFile.pread_of_holds ⟨by omega, by omega⟩ rfl]
    rfl
  have hsb := hread 0 PMF_E4_SB 1024 (by decide) (by decide)
  have hgeo : pmfExt4 (pmfExt4Fresh 3104) (pmfLargeGroup.byte.from (1540 + PMF_E4_SB))
      = .ok ⟨1024, 8193, 8193, 0, 1, 32⟩ := by decide
  have hgd : pmfStreamPread (pmfRawStream pmfLargeGroup 1540) 1 (4 * 512) (1 * 32) (Mem.zeroed (1 * 32))
        = ((Mem.zeroed 32).fill 32 (pmfLargeGroup.byte.from (1540 + 2048)) : Outcome GrubError Mem) := by
    have hlen : 1 * 32 ≤ (Mem.zeroed (1 * 32)).len := Nat.le_refl _
    rw [pmfStreamPread, if_pos hlen, hread 1 (4 * 512) (1 * 32) (by decide) (by decide)]
  obtain ⟨gd, hfill, -⟩ := @fill_of_le GrubError (Mem.zeroed 32) 32
    (pmfLargeGroup.byte.from (1540 + 2048)) (Nat.le_refl _)
  refine fun h => h.1 (congrArg (· >>= _) (pmfSetupExt4_spec.2 fun hfit => ?_))
  have hgroup := hfit _ _ gd hsb hgeo (by decide) (by decide) (hgd.trans hfill) 0 (by decide)
  obtain rfl := Outcome.done.inj hfill
  have hle := hgroup (by decide) fun k hk _ => by
    obtain rfl := Nat.le_zero.mp hk
    rw [pmfGroupBits, hread _ _ _ (by decide) (by decide)]
    rfl
  exact absurd hle (by decide)

end FsRover
