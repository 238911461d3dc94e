import FsRover.Io.Partclone
import FsRover.Lib.Ranges

/-!
# Reads of a partclone image

The result of a read is a function of the file and the request. A cumulative checksum is verified up
to a frontier that only moves on, with the running checksum of all strips before it; whatever the
order of the reads, the frontier passes a strip exactly when that strip and all before it verify.

## Main definitions

* `FsRover.PartcloneImage.Geometry` : what opening guarantees.
* `FsRover.partcloneUsed`, `FsRover.partcloneStripBytes`, `FsRover.PartcloneVerifies` : the bitmap
  and the strips, from the file alone.
* `FsRover.PartcloneTrusted` : a strip and all that its checksum depends on verify.
* `FsRover.partcloneResult` : the result of a read.
* `FsRover.PartcloneState.Sound` : what was verified does verify.

## Main results

* `FsRover.partcloneRead_view` : reads return the result of the request in every history, and stored
  blocks and checksums lie apart.
-/

namespace FsRover

open Guards History

/-! ### The file -/

/-- The bitmap of the file: a byte a block, or a bit. -/
def partcloneUsed (img : PartcloneImage) (block : ℕ) : Bool :=
  match img.version with
  | .v1 => img.carrier.byte (PARTCLONE_HEADER_V1_SIZE + block) == 1
  | .v2 => Rank.bit (img.carrier.byte.from PARTCLONE_HEADER_V2_SIZE) block

/-- The number of used blocks before `block`. -/
def partcloneStoredIndex (img : PartcloneImage) (block : ℕ) : ℕ :=
  Nat.count (fun k => partcloneUsed img k = true) block

/-- What `partclone_open_image` guarantees. -/
structure PartcloneImage.Geometry (img : PartcloneImage) : Prop where
  block_pos : 0 < img.blockSize
  logical_le : img.totalBlocks * img.blockSize ≤ img.totalBytes
  total_lt : img.totalBytes < 2 ^ 64
  bitmap : ∀ block < img.totalBlocks, Rank.bit img.bitmap block = partcloneUsed img block
  used : img.usedBlocks = Rank.ones img.bitmap img.totalBlocks
  rank : Rank.Exact (Rank.ones img.bitmap) PARTCLONE_RANK_BLOCKS img.totalBlocks img.rank
  size : img.carrier.size
    = img.dataOffset + img.usedBlocks * img.blockSize + img.stripCount * img.checksumSize
  v1 : img.version = .v1 → img.checksumMode = .v1 ∧ img.blocksPerChecksum = 1
    ∧ img.v1ChecksumStride = img.checksumSize ∧ img.reseedChecksum = false
  v2 : img.version = .v2 → img.checksumMode ≠ .v1
  plain : img.checksumMode = .none → img.checksumSize = 0 ∧ img.stripCount = 0
  strips : img.checksumMode ≠ .none → 0 < img.blocksPerChecksum
    ∧ img.usedBlocks ≤ img.stripCount * img.blocksPerChecksum
    ∧ img.stripCount * img.blocksPerChecksum < img.usedBlocks + img.blocksPerChecksum

theorem partclonePread_eq_ok {carrier : GrubFile} {call off len : ℕ} {b : Buf}
    (h : partclonePread carrier call off len = .ok b) :
    carrier.Holds off len ∧ b = carrier.byte.from off := GrubFile.pread_mapError_eq_ok h

theorem partclonePread_of_le {carrier : GrubFile} {call off len : ℕ} (h : off + len ≤ carrier.size)
    (hcalm : carrier.fault call off = none) :
    partclonePread carrier call off len = .ok (carrier.byte.from off) := by
  rw [partclonePread, GrubFile.pread_of_holds ⟨by omega, by omega⟩ hcalm]
  rfl

/-! ### Opening -/

theorem partcloneSetBits_bit (buf : Buf) (done n i : ℕ) (bitmap : Buf) (block : ℕ) :
    Rank.bit (partcloneSetBits buf done n i bitmap) block
      = (Rank.bit bitmap block
        || decide (done + i ≤ block ∧ block < done + i + n ∧ buf (block - done) = 1)) := by
  induction n generalizing i bitmap with
  | zero =>
    rw [partcloneSetBits, decide_eq_false (by omega), Bool.or_false]
  | succ n ih =>
    rw [partcloneSetBits, ih, ← Nat.add_assoc]
    rcases Nat.lt_trichotomy block (done + i) with hlt | heq | hgt
    · have hne : block ≠ done + i := by omega
      rw [decide_eq_false (by omega), decide_eq_false (by omega)]
      split_ifs
      · rw [Rank.bit_setBit, decide_eq_false hne, Bool.or_false]
      · rfl
    · subst heq
      rw [Nat.add_sub_cancel_left, decide_eq_false (by omega), Bool.or_false]
      by_cases hone : buf i = 1
      · rw [if_pos hone, Rank.bit_setBit, decide_eq_true rfl,
          decide_eq_true ⟨by omega, by omega, hone⟩]
      · rw [if_neg hone, decide_eq_false fun h => hone h.2.2, Bool.or_false]
    · have hne : block ≠ done + i := by omega
      have hrange : (done + i + 1 ≤ block ∧ block < done + i + 1 + n ∧ buf (block - done) = 1)
          ↔ (done + i ≤ block ∧ block < done + i + (n + 1) ∧ buf (block - done) = 1) := by
        constructor <;> rintro ⟨-, h, hone⟩ <;> exact ⟨by omega, by omega, hone⟩
      rw [decide_eq_decide.mpr hrange]
      split_ifs
      · rw [Rank.bit_setBit, decide_eq_false hne, Bool.or_false]
      · rfl

/-- The bytes from `done` on set the bits they stand for. -/
theorem partcloneLoadBytesV1_bit {carrier : GrubFile} {totalBlocks : ℕ} :
    ∀ {fuel done : ℕ} {bitmap out : Buf}, totalBlocks - done ≤ fuel →
      partcloneLoadBytesV1 carrier totalBlocks fuel done bitmap = .ok out → ∀ block < totalBlocks,
        Rank.bit out block = (Rank.bit bitmap block
          || decide (done ≤ block ∧ carrier.byte (PARTCLONE_HEADER_V1_SIZE + block) = 1))
  | 0, done, bitmap, out, hfuel, h, block, hblock => by
    obtain rfl := Except.ok.inj h
    rw [decide_eq_false (by omega), Bool.or_false]
  | fuel + 1, done, bitmap, out, hfuel, h, block, hblock => by
    rw [partcloneLoadBytesV1] at h
    by_cases hdone : done < totalBlocks
    · rw [if_pos hdone] at h
      obtain ⟨buf, hbuf, hrest⟩ := bind_eq_ok_iff.mp h
      have hwant : 0 < min PARTCLONE_BITMAP_V1_BUFFER_SIZE (totalBlocks - done) :=
        Nat.lt_min.mpr ⟨by decide, by omega⟩
      generalize min PARTCLONE_BITMAP_V1_BUFFER_SIZE (totalBlocks - done) = want at hbuf hrest hwant
      rw [partcloneLoadBytesV1_bit (by omega) hrest block hblock,
        partcloneSetBits_bit, Bool.or_assoc,
        ← Bool.decide_or, (partclonePread_eq_ok hbuf).2]
      congr 2
      rw [Buf.from_apply, eq_iff_iff]
      constructor
      · rintro (⟨hle, -, hone⟩ | ⟨hle, hone⟩)
        · rw [Nat.add_assoc, Nat.add_sub_cancel' (show done ≤ block by omega)] at hone
          exact ⟨hle, hone⟩
        · exact ⟨by omega, hone⟩
      · rintro ⟨hle, hone⟩
        rcases Nat.lt_or_ge block (done + want) with hlt | hge
        · refine .inl ⟨hle, hlt, ?_⟩
          rw [Nat.add_assoc, Nat.add_sub_cancel' hle]
          exact hone
        · exact .inr ⟨hge, hone⟩
    · rw [if_neg hdone] at h
      obtain rfl := Except.ok.inj h
      rw [decide_eq_false (by omega), Bool.or_false]

theorem partcloneBuildRank_eq_ok {bitmap : Buf} {totalBlocks usedBlocks : ℕ} {rank : ℕ → ℕ}
    (h : partcloneBuildRank bitmap totalBlocks usedBlocks = .ok rank) :
    usedBlocks = Rank.ones bitmap totalBlocks
      ∧ Rank.Exact (Rank.ones bitmap) PARTCLONE_RANK_BLOCKS totalBlocks rank := by
  simp only [partcloneBuildRank, bind_eq_ok_iff, refuseIf_eq_ok_iff, exists_const] at h
  obtain ⟨-, hused, hrank⟩ := h
  obtain ⟨hcount, hexact⟩ := @Rank.sampleBits_spec bitmap PARTCLONE_RANK_BLOCKS (by decide)
    totalBlocks fun _ => 0
  rw [← Except.ok.inj hrank]
  exact ⟨(not_not.mp hused).symm.trans hcount, hexact⟩

theorem partcloneExpectedSize_eq_ok {usedBlocks blockSize stripCount checksumSize dataOffset n : ℕ}
    (h : partcloneExpectedSize usedBlocks blockSize stripCount checksumSize dataOffset = .ok n) :
    n = dataOffset + usedBlocks * blockSize + stripCount * checksumSize := by
  simp only [partcloneExpectedSize, bind_eq_ok_iff, require_eq_ok_iff, grubMul_eq_some,
    grubAdd_eq_some] at h
  obtain ⟨_, ⟨-, rfl⟩, _, ⟨-, rfl⟩, _, ⟨-, rfl⟩, -, rfl⟩ := h
  rfl

theorem partcloneCheckGeometry_eq_ok {version : String} {bad : Prop} [Decidable bad]
    {blockSize totalBytes totalBlocks usedBlocks : ℕ} {u : Unit}
    (h : partcloneCheckGeometry version bad blockSize totalBytes totalBlocks usedBlocks = .ok u) :
    0 < blockSize ∧ totalBlocks * blockSize ≤ totalBytes := by
  simp only [partcloneCheckGeometry, bind_eq_ok_iff, refuseIf_eq_ok_iff, exists_const] at h
  obtain ⟨hgeom, hsize, -⟩ := h
  refine ⟨Nat.pos_of_ne_zero fun hzero => hgeom (.inl hzero), ?_⟩
  rw [grubMul] at hsize
  split_ifs at hsize with hfits
  · simpa using hsize
  · simp at hsize

theorem partcloneChecksumOptions_eq_ok {code checksumSize blocksPerChecksum : ℕ} {reseed : Bool}
    {mode : PartcloneChecksum}
    (h : partcloneChecksumOptions code checksumSize blocksPerChecksum reseed = .ok mode) :
    mode ≠ .v1 ∧ (mode = .none → checksumSize = 0) ∧ (mode ≠ .none → 0 < blocksPerChecksum) := by
  simp only [partcloneChecksumOptions] at h
  split_ifs at h
  all_goals
    obtain ⟨_, hcheck, hmode⟩ := bind_eq_ok_iff.mp h
    obtain rfl := Except.ok.inj hmode
    have hcheck := refuseIf_eq_ok_iff.mp hcheck
  · exact ⟨by simp, fun _ => by omega, fun hne => absurd rfl hne⟩
  · exact ⟨by simp, (fun h => by cases h), fun _ => by omega⟩
  · exact ⟨by simp, (fun h => by cases h), fun _ => by omega⟩

theorem partclone_strips {used per : ℕ} (hper : 0 < per) :
    used ≤ (used / per + if used % per ≠ 0 then 1 else 0) * per
      ∧ (used / per + if used % per ≠ 0 then 1 else 0) * per < used + per := by
  have hdiv := Nat.div_add_mod used per
  have hmod := Nat.mod_lt used hper
  rw [Nat.mul_comm] at hdiv
  rw [Nat.add_mul]
  split_ifs <;> omega

theorem partcloneOpenV1_geometry {carrier : GrubFile} {header : Buf} {img : PartcloneImage}
    (h : partcloneOpenV1 carrier header = .ok img) : img.carrier = carrier ∧ img.Geometry := by
  simp only [partcloneOpenV1, bind_eq_ok_iff, refuseIf_eq_ok_iff, exists_const] at h
  obtain ⟨_, hgeom, bitmap, hbitmap, rank, hrank, expected4, h4, expected8, h8, hsize, himg⟩ := h
  obtain ⟨hblock, hlogical⟩ := partcloneCheckGeometry_eq_ok hgeom
  obtain ⟨hused, hexact⟩ := partcloneBuildRank_eq_ok hrank
  have h4 := partcloneExpectedSize_eq_ok h4
  have h8 := partcloneExpectedSize_eq_ok h8
  simp only [partcloneLoadBitmapV1, bind_eq_ok_iff, refuseIf_eq_ok_iff, exists_const] at hbitmap
  obtain ⟨_, hload, _, -, -, hbits⟩ := hbitmap
  obtain rfl := Except.ok.inj hbits
  obtain rfl := Except.ok.inj himg
  refine ⟨rfl, {
    block_pos := hblock
    logical_le := hlogical
    total_lt := lostLe64_lt _ _
    bitmap := fun block hlt => ?_
    used := hused
    rank := hexact
    size := ?_
    v1 := fun _ => ⟨rfl, rfl, rfl, rfl⟩
    v2 := (fun h => by cases h)
    plain := (fun h => by cases h)
    strips := fun _ => ⟨Nat.one_pos, Nat.le_of_eq (Nat.mul_one _).symm,
      Nat.lt_succ_of_le (Nat.le_of_eq (Nat.mul_one _))⟩ }⟩
  · rw [partcloneLoadBytesV1_bit (Nat.sub_le _ _) hload block hlt]
    simp [Rank.bit, partcloneUsed, beq_eq_decide]
  · simp only
    split_ifs with hstride
    · rw [hstride, h4]
    · rw [← h8]
      omega

theorem partcloneOpenV2_geometry {carrier : GrubFile} {header : Buf} {img : PartcloneImage}
    (h : partcloneOpenV2 carrier header = .ok img) : img.carrier = carrier ∧ img.Geometry := by
  simp only [partcloneOpenV2, bind_eq_ok_iff, refuseIf_eq_ok_iff, exists_const] at h
  obtain ⟨-, -, -, _, hgeom, mode, hmode, bitmap, hbitmap, rank, hrank, expected, hexpected, hsize,
    himg⟩ := h
  obtain ⟨hblock, hlogical⟩ := partcloneCheckGeometry_eq_ok hgeom
  obtain ⟨hv1, hplain, hper⟩ := partcloneChecksumOptions_eq_ok hmode
  obtain ⟨hused, hexact⟩ := partcloneBuildRank_eq_ok hrank
  simp only [partcloneLoadBitmapV2, bind_eq_ok_iff, refuseIf_eq_ok_iff, exists_const] at hbitmap
  obtain ⟨_, hload, _, -, -, hbits⟩ := hbitmap
  obtain rfl := Except.ok.inj hbits
  obtain rfl := Except.ok.inj himg
  exact ⟨rfl, {
    block_pos := hblock
    logical_le := hlogical
    total_lt := lostLe64_lt _ _
    bitmap := fun block _ => by rw [(partclonePread_eq_ok hload).2]; rfl
    used := hused
    rank := hexact
    size := (not_not.mp hsize).trans (partcloneExpectedSize_eq_ok hexpected)
    v1 := (fun h => by cases h)
    v2 := fun _ => hv1
    plain := fun hnone => ⟨hplain hnone, if_pos hnone⟩
    strips := fun hne => by
      simp only [if_neg hne]
      exact ⟨hper hne, partclone_strips (hper hne)⟩ }⟩

theorem partcloneOpenImage_geometry {carrier : GrubFile} {img : PartcloneImage}
    (h : partcloneOpenImage carrier = .ok img) : img.carrier = carrier ∧ img.Geometry := by
  simp only [partcloneOpenImage, bind_eq_ok_iff, refuseIf_eq_ok_iff, exists_const] at h
  obtain ⟨header, -, -, h⟩ := h
  split_ifs at h
  · obtain ⟨_, -, h⟩ := bind_eq_ok_iff.mp h
    exact partcloneOpenV1_geometry h
  · exact partcloneOpenV2_geometry h

/-! ### The layout -/

/-- The strip of a stored block. -/
def PartcloneImage.strip (img : PartcloneImage) (storedBlock : ℕ) : ℕ :=
  storedBlock / img.blocksPerChecksum

/-- The first stored block after the strip. -/
def PartcloneImage.stripEnd (img : PartcloneImage) (strip : ℕ) : ℕ :=
  min ((strip + 1) * img.blocksPerChecksum) img.usedBlocks

/-- The number of data bytes of a strip. -/
def PartcloneImage.stripBytes (img : PartcloneImage) (strip : ℕ) : ℕ :=
  (img.stripEnd strip - strip * img.blocksPerChecksum) * img.blockSize

/-- The offset of the checksum of a strip. -/
def partcloneChecksumOffset (img : PartcloneImage) (strip : ℕ) : ℕ :=
  partcloneStoredOffset img (strip * img.blocksPerChecksum) + img.stripBytes strip

namespace PartcloneImage.Geometry

variable {img : PartcloneImage} (hgeom : img.Geometry)
include hgeom

theorem strip_le {storedBlock : ℕ} (h : storedBlock < img.usedBlocks) :
    img.strip storedBlock * img.checksumSize ≤ img.stripCount * img.checksumSize := by
  by_cases hplain : img.checksumMode = .none
  · rw [(hgeom.plain hplain).1, Nat.mul_zero]
    exact Nat.zero_le _
  · obtain ⟨hpos, hle, -⟩ := hgeom.strips hplain
    refine Nat.mul_le_mul_right _ (Nat.le_of_lt ((Nat.div_lt_iff_lt_mul hpos).mpr ?_))
    omega

theorem strip_lt {storedBlock : ℕ} (hplain : img.checksumMode ≠ .none)
    (h : storedBlock < img.usedBlocks) : img.strip storedBlock < img.stripCount := by
  obtain ⟨hpos, hle, -⟩ := hgeom.strips hplain
  exact (Nat.div_lt_iff_lt_mul hpos).mpr (by omega)

theorem storedOffset {storedBlock : ℕ} (h : storedBlock < img.usedBlocks) :
    partcloneStoredOffset img storedBlock
      = img.dataOffset + storedBlock * img.blockSize + img.strip storedBlock *
        img.checksumSize := by
  have hstrip := hgeom.strip_le h
  have hblock := Nat.mul_le_mul_right img.blockSize (Nat.le_of_lt h)
  have hsize := hgeom.size
  have hlt := img.carrier.size_lt
  rw [partcloneStoredOffset]
  cases hversion : img.version with
  | v1 =>
    obtain ⟨-, hper, hstride, -⟩ := hgeom.v1 hversion
    simp only [strip, hper, Nat.div_one] at hstrip ⊢
    rw [hstride, Nat.mul_add, u64_of_lt (by omega), Nat.add_assoc]
  | v2 =>
    simp only
    by_cases hplain : img.checksumMode = .none
    · rw [if_pos hplain, (hgeom.plain hplain).1, u64_of_lt (by omega), Nat.mul_zero, Nat.add_zero]
    · rw [if_neg hplain]
      exact u64_of_lt (Nat.lt_of_le_of_lt (Nat.add_le_add_left hstrip _) (by omega))

/-- A strip has a first block, -/
theorem first_lt {strip : ℕ} (h : strip < img.stripCount) :
    strip * img.blocksPerChecksum < img.usedBlocks := by
  have hplain : img.checksumMode ≠ .none := fun hnone => by
    have hzero := (hgeom.plain hnone).2
    omega
  obtain ⟨-, -, hlt⟩ := hgeom.strips hplain
  have hmul := Nat.mul_le_mul_right img.blocksPerChecksum (Nat.succ_le_of_lt h)
  rw [Nat.succ_mul] at hmul
  omega

/-- and its checksum follows the last one. -/
theorem checksumOffset {strip : ℕ} (h : strip < img.stripCount) :
    partcloneChecksumOffset img strip
      = img.dataOffset + img.stripEnd strip * img.blockSize + strip * img.checksumSize := by
  have hfirst := hgeom.first_lt h
  have hpos : 0 < img.blocksPerChecksum := by
    refine (hgeom.strips fun hnone => ?_).1
    have hzero := (hgeom.plain hnone).2
    omega
  have hend : strip * img.blocksPerChecksum ≤ img.stripEnd strip :=
    Nat.le_min.mpr ⟨Nat.mul_le_mul_right _ (Nat.le_succ _), Nat.le_of_lt hfirst⟩
  have hblocks := Nat.mul_le_mul_right img.blockSize hend
  rw [partcloneChecksumOffset, hgeom.storedOffset hfirst, PartcloneImage.strip,
    Nat.mul_div_cancel _ hpos, stripBytes, Nat.sub_mul]
  omega

theorem stored_le {storedBlock : ℕ} (h : storedBlock < img.usedBlocks) :
    partcloneStoredOffset img storedBlock + img.blockSize ≤ img.carrier.size := by
  have hstrip := hgeom.strip_le h
  have hblock := Nat.mul_le_mul_right img.blockSize (Nat.succ_le_of_lt h)
  rw [Nat.succ_mul] at hblock
  rw [hgeom.storedOffset h, hgeom.size]
  omega

theorem checksum_le {strip : ℕ} (h : strip < img.stripCount) :
    partcloneChecksumOffset img strip + img.checksumSize ≤ img.carrier.size := by
  have hstrip := Nat.mul_le_mul_right img.checksumSize (Nat.succ_le_of_lt h)
  have hend := Nat.mul_le_mul_right img.blockSize
    (Nat.min_le_right ((strip + 1) * img.blocksPerChecksum) img.usedBlocks)
  rw [Nat.succ_mul] at hstrip
  rw [hgeom.checksumOffset h, hgeom.size, stripEnd]
  omega

/-- Stored blocks are in order, -/
theorem stored_lt {i j : ℕ} (hij : i < j) (hj : j < img.usedBlocks) :
    partcloneStoredOffset img i + img.blockSize ≤ partcloneStoredOffset img j := by
  have hblock := Nat.mul_le_mul_right img.blockSize (Nat.succ_le_of_lt hij)
  have hstrip : img.strip i * img.checksumSize ≤ img.strip j * img.checksumSize :=
    Nat.mul_le_mul_right _ (Nat.div_le_div_right (Nat.le_of_lt hij))
  rw [Nat.succ_mul] at hblock
  rw [hgeom.storedOffset (Nat.lt_trans hij hj), hgeom.storedOffset hj]
  omega

/-- a checksum is behind the blocks of its strip and of those before it, -/
theorem stored_lt_checksum {i strip : ℕ} (hi : i < img.usedBlocks) (h : strip < img.stripCount)
    (hstrip : img.strip i ≤ strip) :
    partcloneStoredOffset img i + img.blockSize ≤ partcloneChecksumOffset img strip := by
  have hpos : 0 < img.blocksPerChecksum := by
    refine (hgeom.strips fun hnone => ?_).1
    have hzero := (hgeom.plain hnone).2
    omega
  have hlt : i < (strip + 1) * img.blocksPerChecksum :=
    (Nat.div_lt_iff_lt_mul hpos).mp (Nat.lt_succ_of_le hstrip)
  have hend : i + 1 ≤ img.stripEnd strip := Nat.le_min.mpr ⟨hlt, hi⟩
  have hblock := Nat.mul_le_mul_right img.blockSize hend
  have hsum := Nat.mul_le_mul_right img.checksumSize hstrip
  rw [Nat.succ_mul] at hblock
  rw [hgeom.storedOffset hi, hgeom.checksumOffset h]
  omega

/-- and before the blocks of the strips after it. -/
theorem checksum_lt_stored {i strip : ℕ} (hi : i < img.usedBlocks) (h : strip < img.stripCount)
    (hstrip : strip < img.strip i) :
    partcloneChecksumOffset img strip + img.checksumSize ≤ partcloneStoredOffset img i := by
  have hfirst : (strip + 1) * img.blocksPerChecksum ≤ i :=
    Nat.le_trans (Nat.mul_le_mul_right _ hstrip) (Nat.div_mul_le_self _ _)
  have hend := Nat.mul_le_mul_right img.blockSize (Nat.le_trans
    (Nat.min_le_left _ img.usedBlocks) hfirst)
  have hsum := Nat.mul_le_mul_right img.checksumSize (Nat.succ_le_of_lt hstrip)
  rw [Nat.succ_mul] at hsum
  rw [hgeom.storedOffset hi, hgeom.checksumOffset h, stripEnd]
  omega

theorem checksum_lt {i j : ℕ} (hij : i < j) (hj : j < img.stripCount) :
    partcloneChecksumOffset img i + img.checksumSize ≤ partcloneChecksumOffset img j := by
  have hi := Nat.lt_trans hij hj
  have hmono : img.stripEnd i ≤ img.stripEnd j :=
    Nat.le_min.mpr ⟨Nat.le_trans (Nat.min_le_left _ _) (Nat.mul_le_mul_right _ (by omega)),
      Nat.min_le_right _ _⟩
  have hend := Nat.mul_le_mul_right img.blockSize hmono
  have hsum := Nat.mul_le_mul_right img.checksumSize (Nat.succ_le_of_lt hij)
  rw [Nat.succ_mul] at hsum
  rw [hgeom.checksumOffset hi, hgeom.checksumOffset hj]
  omega

end PartcloneImage.Geometry

/-- Distinct stored blocks and checksums lie at disjoint ranges of the file. -/
structure PartcloneImage.Apart (img : PartcloneImage) : Prop where
  blocks : ∀ i j, i < img.usedBlocks → j < img.usedBlocks → i ≠ j →
    ¬ Ranges.Meet (partcloneStoredOffset img i) img.blockSize
      (partcloneStoredOffset img j) img.blockSize
  checksums : ∀ k l, k < img.stripCount → l < img.stripCount → k ≠ l →
    ¬ Ranges.Meet (partcloneChecksumOffset img k) img.checksumSize
      (partcloneChecksumOffset img l) img.checksumSize
  between : ∀ i k, i < img.usedBlocks → k < img.stripCount →
    ¬ Ranges.Meet (partcloneStoredOffset img i) img.blockSize
      (partcloneChecksumOffset img k) img.checksumSize
  blocks_le : ∀ i < img.usedBlocks,
    partcloneStoredOffset img i + img.blockSize ≤ img.carrier.size
  checksums_le : ∀ k < img.stripCount,
    partcloneChecksumOffset img k + img.checksumSize ≤ img.carrier.size

theorem PartcloneImage.Geometry.apart {img : PartcloneImage} (hgeom : img.Geometry) :
  img.Apart where
  blocks := by
    rintro i j hi hj hne ⟨x, ⟨hix, hxi⟩, hjx, hxj⟩
    rcases Nat.lt_or_gt_of_ne hne with hij | hji
    · have hlt := hgeom.stored_lt hij hj
      omega
    · have hlt := hgeom.stored_lt hji hi
      omega
  checksums := by
    rintro k l hk hl hne ⟨x, ⟨hkx, hxk⟩, hlx, hxl⟩
    rcases Nat.lt_or_gt_of_ne hne with hkl | hlk
    · have hlt := hgeom.checksum_lt hkl hl
      omega
    · have hlt := hgeom.checksum_lt hlk hk
      omega
  between := by
    rintro i k hi hk ⟨x, ⟨hix, hxi⟩, hkx, hxk⟩
    rcases Nat.lt_or_ge k (img.strip i) with hlt | hge
    · have hlt := hgeom.checksum_lt_stored hi hk hlt
      omega
    · have hlt := hgeom.stored_lt_checksum hi hk hge
      omega
  blocks_le := fun i hi => hgeom.stored_le hi
  checksums_le := fun k hk => hgeom.checksum_le hk

/-! ### Strips -/

/-- The bytes the checksum of a strip is fed with. In format 0001 a block stands for its first byte,
repeated. -/
def partcloneStripBytes (img : PartcloneImage) (strip : ℕ) : List UInt8 :=
  match img.version with
  | .v1 => List.replicate img.blockSize (img.carrier.byte (partcloneStoredOffset img strip))
  | .v2 => History.slice img.carrier.byte
      (partcloneStoredOffset img (strip * img.blocksPerChecksum)) (img.stripBytes strip)

/-- The bytes of the strips before `strip`. -/
def partcloneFed (img : PartcloneImage) : ℕ → List UInt8
  | 0 => []
  | strip + 1 => partcloneFed img strip ++ partcloneStripBytes img strip

section Verifying

variable (xxh64 : List UInt8 → ℕ)

/-- The checksum of `data`. -/
def partcloneSum (img : PartcloneImage) (data : List UInt8) : ℕ :=
  match img.checksumMode with
  | .xxh64 => xxh64 data
  | _ => (partcloneCrc32 0xffffffff data).toNat

/-- The checksum stored for a strip. -/
def partcloneStoredSum (img : PartcloneImage) (strip : ℕ) : ℕ :=
  match img.checksumMode with
  | .xxh64 => lostLe64 (img.carrier.byte.from (partcloneChecksumOffset img strip)) 0
  | _ => lostLe32 (img.carrier.byte.from (partcloneChecksumOffset img strip)) 0

/-- The strip verifies: alone, or together with the strips before it. -/
def PartcloneVerifies (img : PartcloneImage) (strip : ℕ) : Prop :=
  partcloneSum xxh64 img
      (if img.reseedChecksum then partcloneStripBytes img strip else partcloneFed img (strip + 1))
    = partcloneStoredSum img strip

instance (img : PartcloneImage) (strip : ℕ) : Decidable (PartcloneVerifies xxh64 img strip) :=
  inferInstanceAs (Decidable (_ = _))

/-- The strip verifies, and so do the strips before it if the checksum is cumulative. -/
def PartcloneTrusted (img : PartcloneImage) (strip : ℕ) : Prop :=
  if img.reseedChecksum then PartcloneVerifies xxh64 img strip
  else ∀ k < strip + 1, PartcloneVerifies xxh64 img k

instance (img : PartcloneImage) (strip : ℕ) : Decidable (PartcloneTrusted xxh64 img strip) :=
  inferInstanceAs (Decidable (if img.reseedChecksum then PartcloneVerifies xxh64 img strip
    else ∀ k < strip + 1, PartcloneVerifies xxh64 img k))

/-- The message of a strip that does not verify. -/
def partcloneBadStrip (img : PartcloneImage) : GrubError :=
  match img.checksumMode with
  | .v1 => ⟨.badSignature, "bad partclone 0001 block checksum"⟩
  | .crc32 => ⟨.badSignature, "bad partclone CRC32 block strip"⟩
  | _ => ⟨.badSignature, "bad partclone XXH64 block strip"⟩

/-- The running checksum is that of `data`. -/
def PartcloneRunning.Holds (mode : PartcloneChecksum) (run : PartcloneRunning)
    (data : List UInt8) : Prop :=
  match mode with
  | .xxh64 => run.fed = data
  | _ => run.crc = partcloneCrc32 0xffffffff data

theorem PartcloneRunning.holds_start (mode : PartcloneChecksum) :
    PartcloneRunning.start.Holds mode [] := by
  cases mode <;> rfl

theorem PartcloneRunning.Holds.feed {mode : PartcloneChecksum} {run : PartcloneRunning}
    {data : List UInt8} (h : run.Holds mode data) (hmode : mode = .crc32 ∨ mode = .xxh64)
    (more : List UInt8) : (run.feed mode more).Holds mode (data ++ more) := by
  rcases hmode with rfl | rfl
  · show partcloneCrc32 run.crc more = _
    rw [show run.crc = _ from h, partcloneCrc32, partcloneCrc32, partcloneCrc32, List.foldl_append]
  · show run.fed ++ more = _
    rw [show run.fed = data from h]

theorem partcloneCrc32V1_eq (crc : UInt32) (byte : UInt8) (len : ℕ) :
    partcloneCrc32V1 crc byte len = partcloneCrc32 crc (List.replicate len byte) := by
  induction len generalizing crc with
  | zero => rfl
  | succ len ih => exact ih _

/-- The carrier never fails. -/
def GrubFile.Calm (f : GrubFile) : Prop := ∀ call off, f.fault call off = none

theorem slice_append (byte : Buf) (off m n : ℕ) :
    slice byte off m ++ slice byte (off + m) n = slice byte off (m + n) := by
  simp only [slice, ← List.map_append, List.range'_append_1]

/-- The pieces of a strip feed it from `done` on. -/
theorem partcloneFeedStrip_spec {img : PartcloneImage} {call dataOff dataBytes : ℕ}
    (hmode : img.checksumMode = .crc32 ∨ img.checksumMode = .xxh64)
    (hin : dataOff + dataBytes ≤ img.carrier.size) :
    ∀ {fuel done : ℕ} {run : PartcloneRunning} {data : List UInt8}, dataBytes - done ≤ fuel →
      run.Holds img.checksumMode data →
      (∀ r, partcloneFeedStrip img call dataOff dataBytes fuel done run = .ok r →
        r.Holds img.checksumMode (data ++ slice img.carrier.byte (dataOff + done)
          (dataBytes - done)))
      ∧ (img.carrier.Calm →
        ∃ r, partcloneFeedStrip img call dataOff dataBytes fuel done run = .ok r)
  | 0, done, run, data, hfuel, hrun => by
    rw [show dataBytes - done = 0 by omega]
    refine ⟨fun r h => ?_, fun _ => ⟨run, rfl⟩⟩
    obtain rfl := Except.ok.inj h
    rwa [slice, List.range'_zero, List.map_nil, List.append_nil]
  | fuel + 1, done, run, data, hfuel, hrun => by
    rw [partcloneFeedStrip]
    by_cases hdone : done < dataBytes
    · have hwant : 0 < min PARTCLONE_VERIFY_BUFFER_SIZE (dataBytes - done) :=
        Nat.lt_min.mpr ⟨by decide, by omega⟩
      have hle := Nat.min_le_right PARTCLONE_VERIFY_BUFFER_SIZE (dataBytes - done)
      have hlt := img.carrier.size_lt
      rw [if_pos hdone]
      generalize min PARTCLONE_VERIFY_BUFFER_SIZE (dataBytes - done) = want at hwant hle
      rw [u64_of_lt (by omega)]
      have hfed := hrun.feed hmode (slice img.carrier.byte (dataOff + done) want)
      have hrec := @partcloneFeedStrip_spec _ call _ _ hmode hin fuel (done + want) _ _
        (by omega) hfed
      have hdata : data ++ slice img.carrier.byte (dataOff + done) want
          ++ slice img.carrier.byte (dataOff + (done + want)) (dataBytes - (done + want))
          = data ++ slice img.carrier.byte (dataOff + done) (dataBytes - done) := by
        rw [List.append_assoc, ← Nat.add_assoc, slice_append]
        congr 2
        omega
      rw [hdata] at hrec
      constructor
      · intro r h
        obtain ⟨buf, hbuf, hrest⟩ := bind_eq_ok_iff.mp h
        rw [(partclonePread_eq_ok hbuf).2, slice_from] at hrest
        exact hrec.1 r hrest
      · intro hcalm
        obtain ⟨r, hr⟩ := hrec.2 hcalm
        refine ⟨r, bind_eq_ok_iff.mpr ⟨_, partclonePread_of_le (by omega) (hcalm _ _), ?_⟩⟩
        rwa [slice_from]
    · rw [if_neg hdone, show dataBytes - done = 0 by omega]
      refine ⟨fun r h => ?_, fun _ => ⟨run, rfl⟩⟩
      obtain rfl := Except.ok.inj h
      rwa [slice, List.range'_zero, List.map_nil, List.append_nil]

/-- The check passes when the sums are equal, -/
theorem partcloneCheckStrip_eq_ok {xxh64 : List UInt8 → ℕ} {img : PartcloneImage}
    {run : PartcloneRunning} {data : List UInt8} {strip : ℕ} {u : Unit}
    (hmode : img.checksumMode = .crc32 ∨ img.checksumMode = .xxh64)
    (hrun : run.Holds img.checksumMode data) :
    partcloneCheckStrip xxh64 img run (img.carrier.byte.from (partcloneChecksumOffset img strip))
        = .ok u
      ↔ partcloneSum xxh64 img data = partcloneStoredSum img strip := by
  rw [partcloneCheckStrip, partcloneSum, partcloneStoredSum]
  rcases hmode with hmode | hmode
  · simp only [hmode, if_true, refuseIf_eq_ok_iff, not_not] at hrun ⊢
    rw [show run.crc = _ from hrun]
  · simp only [hmode] at hrun ⊢
    rw [if_neg (by simp), refuseIf_eq_ok_iff, not_not, show run.fed = _ from hrun]

/-- and fails with the message of the strip when they are not. -/
theorem partcloneCheckStrip_eq_error {xxh64 : List UInt8 → ℕ} {img : PartcloneImage}
    {run : PartcloneRunning} {data : List UInt8} {strip : ℕ} {e : GrubError}
    (hmode : img.checksumMode = .crc32 ∨ img.checksumMode = .xxh64)
    (hrun : run.Holds img.checksumMode data)
    (h : partcloneCheckStrip xxh64 img run (img.carrier.byte.from (partcloneChecksumOffset
      img strip))
      = .error e) :
    e = partcloneBadStrip img ∧ partcloneSum xxh64 img data ≠ partcloneStoredSum img strip := by
  constructor
  · rw [partcloneCheckStrip] at h
    rw [partcloneBadStrip]
    rcases hmode with hmode | hmode
    · rw [if_pos hmode] at h
      rw [hmode]
      exact (refuseIf_eq_error_iff.mp h).2.symm
    · rw [if_neg (by simp [hmode])] at h
      rw [hmode]
      exact (refuseIf_eq_error_iff.mp h).2.symm
  · intro heq
    rw [(partcloneCheckStrip_eq_ok (u := ()) hmode hrun).mpr heq] at h
    cases h

variable {xxh64} {img : PartcloneImage} (hgeom : img.Geometry)
include hgeom

theorem partcloneChecksumOffset_v1 (hversion : img.version = .v1) {strip : ℕ}
    (h : strip < img.stripCount) :
    partcloneChecksumOffset img strip = partcloneStoredOffset img strip + img.blockSize := by
  obtain ⟨-, hper, -⟩ := hgeom.v1 hversion
  have hfirst := hgeom.first_lt h
  rw [hper, Nat.mul_one] at hfirst
  rw [partcloneChecksumOffset, PartcloneImage.stripBytes, PartcloneImage.stripEnd, hper,
    Nat.mul_one, Nat.mul_one, Nat.min_eq_left hfirst, Nat.succ_sub (Nat.le_refl _), Nat.sub_self,
    Nat.one_mul]

theorem partcloneVerifyStrip_v1 (hversion : img.version = .v1) {call strip : ℕ}
    {run : PartcloneRunning} {data : List UInt8} (hstrip : strip < img.stripCount)
    (hrun : run.Holds img.checksumMode data) :
    (∀ r, partcloneVerifyStrip xxh64 img call run strip = .ok r →
      r.Holds img.checksumMode (data ++ partcloneStripBytes img strip)
        ∧ partcloneSum xxh64 img (data ++ partcloneStripBytes img strip)
          = partcloneStoredSum img strip)
      ∧ (img.carrier.Calm → ∀ e, partcloneVerifyStrip xxh64 img call run strip = .error e →
        e = partcloneBadStrip img
          ∧ partcloneSum xxh64 img (data ++ partcloneStripBytes img strip)
            ≠ partcloneStoredSum img strip) := by
  obtain ⟨hmode, -, hstride, -⟩ := hgeom.v1 hversion
  have hend := hgeom.checksum_le hstrip
  have hoff := partcloneChecksumOffset_v1 hgeom hversion hstrip
  have hpos := hgeom.block_pos
  have hlt := img.carrier.size_lt
  have hcrc : partcloneCrc32V1 run.crc (img.carrier.byte (partcloneStoredOffset img strip))
      img.blockSize = partcloneCrc32 0xffffffff (data ++ partcloneStripBytes img strip) := by
    rw [hmode] at hrun
    rw [partcloneCrc32V1_eq, partcloneStripBytes, hversion, show run.crc
      = _ from hrun, partcloneCrc32,
      partcloneCrc32, partcloneCrc32, List.foldl_append]
  simp only [partcloneVerifyStrip, hversion, partcloneSum, partcloneStoredSum,
    partcloneBadStrip, hmode,
    PartcloneRunning.Holds, ← hcrc, ← hoff]
  rw [u64_of_lt (by omega), hstride]
  constructor
  · intro r h
    simp only [bind_eq_ok_iff, refuseIf_eq_ok_iff, exists_const] at h
    obtain ⟨firstByte, hfirst, stored, hstored, hcheck, hr⟩ := h
    rw [(partclonePread_eq_ok hfirst).2, (partclonePread_eq_ok hstored).2] at hcheck
    rw [(partclonePread_eq_ok hfirst).2] at hr
    obtain rfl := Except.ok.inj hr
    exact ⟨rfl, not_not.mp hcheck⟩
  · intro hcalm e h
    rw [partclonePread_of_le (by omega) (hcalm _ _), partclonePread_of_le hend (hcalm _ _)] at h
    simp only [bind_eq_error_iff, refuseIf_eq_error_iff] at h
    obtain h | ⟨_, hfirst, h | ⟨_, hstored, h | ⟨_, -, h⟩⟩⟩ := h
    · cases h
    · cases h
    · obtain rfl := Except.ok.inj hfirst
      obtain rfl := Except.ok.inj hstored
      exact ⟨h.2.symm, h.1⟩
    · cases h

theorem partcloneVerifyStrip_v2 (hversion : img.version = .v2) {call strip : ℕ}
    {run : PartcloneRunning} {data : List UInt8} (hstrip : strip < img.stripCount)
    (hrun : run.Holds img.checksumMode data) :
    (∀ r, partcloneVerifyStrip xxh64 img call run strip = .ok r →
      r.Holds img.checksumMode (data ++ partcloneStripBytes img strip)
        ∧ partcloneSum xxh64 img (data ++ partcloneStripBytes img strip)
          = partcloneStoredSum img strip)
      ∧ (img.carrier.Calm → ∀ e, partcloneVerifyStrip xxh64 img call run strip = .error e →
        e = partcloneBadStrip img
          ∧ partcloneSum xxh64 img (data ++ partcloneStripBytes img strip)
            ≠ partcloneStoredSum img strip) := by
  have hplain : img.checksumMode ≠ .none := fun hnone => by
    have hzero := (hgeom.plain hnone).2
    omega
  have hmode : img.checksumMode = .crc32 ∨ img.checksumMode = .xxh64 := by
    have hv1 := hgeom.v2 hversion
    cases hm : img.checksumMode <;> simp_all
  have hfirst := hgeom.first_lt hstrip
  have hend := hgeom.checksum_le hstrip
  have hused : img.usedBlocks < 2 ^ 64 := by
    have hsize := hgeom.size
    have hmul := Nat.mul_le_mul_left img.usedBlocks hgeom.block_pos
    have hlt := img.carrier.size_lt
    omega
  have hlt := img.carrier.size_lt
  have hcount : min (img.usedBlocks - strip * img.blocksPerChecksum) img.blocksPerChecksum
      = img.stripEnd strip - strip * img.blocksPerChecksum := by
    rw [PartcloneImage.stripEnd, Nat.succ_mul]
    omega
  have hbytes : grubMul (img.stripEnd strip - strip * img.blocksPerChecksum) img.blockSize
      = some (img.stripBytes strip) := by
    refine grubMul_eq_some.mpr ⟨?_, rfl⟩
    rw [partcloneChecksumOffset, PartcloneImage.stripBytes] at hend
    omega
  have hfeed := @partcloneFeedStrip_spec _ call _ _ hmode (Nat.le_trans (Nat.le_add_right _ _)
    hend) _ _ _ _ (Nat.sub_le (img.stripBytes strip) 0) hrun
  rw [Nat.add_zero, Nat.sub_zero] at hfeed
  have hoff : partcloneStoredOffset img (strip * img.blocksPerChecksum) + img.stripBytes strip
      = partcloneChecksumOffset img strip := rfl
  have hstart : u64 (partcloneChecksumOffset img strip) = partcloneChecksumOffset img strip :=
    u64_of_lt (Nat.lt_of_le_of_lt (Nat.le_trans (Nat.le_add_right _ _) hend) hlt)
  have hdata : partcloneStripBytes img strip = slice img.carrier.byte
      (partcloneStoredOffset img (strip * img.blocksPerChecksum)) (img.stripBytes strip) := by
    simp only [partcloneStripBytes, hversion]
  rw [← hdata] at hfeed
  simp only [partcloneVerifyStrip, hversion]
  rw [u64_of_lt (Nat.lt_trans hfirst hused), sub64_of_le (Nat.le_of_lt hfirst) hused,
    hcount, hbytes]
  constructor
  · intro r h
    simp only [bind_eq_ok_iff, require_eq_ok_iff] at h
    obtain ⟨_, hsome, run', hrun', stored, hstored, _, hcheck, hr⟩ := h
    obtain rfl := Option.some.inj hsome
    obtain rfl := Except.ok.inj hr
    rw [(partclonePread_eq_ok hstored).2, hoff, hstart] at hcheck
    have hholds := hfeed.1 run' hrun'
    exact ⟨hholds, (partcloneCheckStrip_eq_ok hmode hholds).mp hcheck⟩
  · intro hcalm e h
    simp only [bind_eq_error_iff, require_eq_error_iff] at h
    obtain h | ⟨_, hsome, h | ⟨run', hrun', h | ⟨stored, hstored, h | ⟨_, -, h⟩⟩⟩⟩ := h
    · cases h.1
    · obtain rfl := Option.some.inj (require_eq_ok_iff.mp hsome)
      obtain ⟨r, hr⟩ := hfeed.2 hcalm
      rw [hr] at h
      cases h
    · obtain rfl := Option.some.inj (require_eq_ok_iff.mp hsome)
      rw [hoff, hstart, partclonePread_of_le hend (hcalm _ _)] at h
      cases h
    · obtain rfl := Option.some.inj (require_eq_ok_iff.mp hsome)
      rw [(partclonePread_eq_ok hstored).2, hoff, hstart] at h
      exact partcloneCheckStrip_eq_error hmode (hfeed.1 run' hrun') h
    · cases h

/-- A checksum that goes on from `data` succeeds with that of `data` and the strip, when it is the
one stored; without failures of the carrier there is no other way for it to fail. -/
theorem partcloneVerifyStrip_spec {call strip : ℕ} {run : PartcloneRunning} {data : List UInt8}
    (hstrip : strip < img.stripCount) (hrun : run.Holds img.checksumMode data) :
    (∀ r, partcloneVerifyStrip xxh64 img call run strip = .ok r →
      r.Holds img.checksumMode (data ++ partcloneStripBytes img strip)
        ∧ partcloneSum xxh64 img (data ++ partcloneStripBytes img strip)
          = partcloneStoredSum img strip)
      ∧ (img.carrier.Calm → ∀ e, partcloneVerifyStrip xxh64 img call run strip = .error e →
        e = partcloneBadStrip img
          ∧ partcloneSum xxh64 img (data ++ partcloneStripBytes img strip)
            ≠ partcloneStoredSum img strip) := by
  cases hversion : img.version with
  | v1 => exact partcloneVerifyStrip_v1 hgeom hversion hstrip hrun
  | v2 => exact partcloneVerifyStrip_v2 hgeom hversion hstrip hrun

omit hgeom in
/-- A cumulative sum over a strip is that of the strips up to it. -/
theorem partcloneVerifies_iff {strip : ℕ} :
    PartcloneVerifies xxh64 img strip ↔ partcloneSum xxh64 img
      ((if img.reseedChecksum then [] else partcloneFed img strip) ++ partcloneStripBytes img strip)
        = partcloneStoredSum img strip := by
  rw [PartcloneVerifies]
  split_ifs
  · rw [List.nil_append]
  · rfl

/-- What was verified does verify, and the running checksum is that of the strips before the
frontier. -/
structure PartcloneState.Sound (xxh64 : List UInt8 → ℕ) (img : PartcloneImage)
  (s : PartcloneState) :
    Prop where
  verified : img.reseedChecksum = true → ∀ k, s.verified k = true → PartcloneVerifies xxh64 img k
  through : img.reseedChecksum = false → ∀ k < s.verifiedThrough, PartcloneVerifies xxh64 img k
  running : img.reseedChecksum = false →
    s.running.Holds img.checksumMode (partcloneFed img s.verifiedThrough)

omit hgeom in
theorem PartcloneState.sound_init (calls : ℕ) : (PartcloneState.init calls).Sound xxh64 img where
  verified := fun _ _ h => by cases h
  through := fun _ _ h => absurd h (Nat.not_lt_zero _)
  running := fun _ => PartcloneRunning.holds_start _

omit hgeom in
theorem PartcloneState.Sound.calls {s : PartcloneState} (h : s.Sound xxh64 img) (calls : ℕ) :
    { s with calls }.Sound xxh64 img := ⟨h.verified, h.through, h.running⟩

/-- What a verification of `p` leaves: a sound state, and success exactly if `p` holds, unless the
carrier fails. -/
structure PartcloneVerified (xxh64 : List UInt8 → ℕ) (img : PartcloneImage) (p : Prop)
    (r : Except GrubError Unit × PartcloneState) : Prop where
  sound : r.2.Sound xxh64 img
  holds : r.1 = .ok () → p
  bad : img.carrier.Calm → ∀ e, r.1 = .error e → e = partcloneBadStrip img ∧ ¬ p

omit hgeom in
theorem PartcloneVerified.congr {p q : Prop} {r : Except GrubError Unit × PartcloneState}
    (h : PartcloneVerified xxh64 img p r) (hpq : p ↔ q) : PartcloneVerified xxh64 img q r :=
  propext hpq ▸ h

theorem partcloneVerifyThrough_spec (hreseed : img.reseedChecksum = false) {strip : ℕ}
    (hstrip : strip < img.stripCount) :
    ∀ {fuel : ℕ} {s : PartcloneState}, strip + 1 - s.verifiedThrough ≤ fuel → s.Sound xxh64 img →
      PartcloneVerified xxh64 img (PartcloneTrusted xxh64 img strip)
        (partcloneVerifyThrough xxh64 img strip fuel s)
  | 0, s, hfuel, hs => by
    refine ⟨hs, fun _ => ?_, fun _ _ h => by cases h⟩
    rw [PartcloneTrusted, if_neg (by simp [hreseed])]
    exact fun k hk => hs.through hreseed k (by omega)
  | fuel + 1, s, hfuel, hs => by
    rw [partcloneVerifyThrough]
    by_cases hle : s.verifiedThrough ≤ strip
    · rw [if_pos hle]
      obtain ⟨hok, herror⟩ := @partcloneVerifyStrip_spec xxh64 _ hgeom s.calls _ _ _
        (Nat.lt_of_le_of_lt hle hstrip) (hs.running hreseed)
      have hiff := @partcloneVerifies_iff xxh64 img s.verifiedThrough
      rw [hreseed, if_neg Bool.false_ne_true] at hiff
      cases hv : partcloneVerifyStrip xxh64 img s.calls s.running s.verifiedThrough with
      | error e =>
        refine ⟨hs.calls _, (fun h => by cases h), fun hcalm e' he => ?_⟩
        obtain rfl := Except.error.inj he
        obtain ⟨hbad, hsum⟩ := herror hcalm e hv
        refine ⟨hbad, fun htrusted => hsum (hiff.mp ?_)⟩
        rw [PartcloneTrusted, if_neg (by simp [hreseed])] at htrusted
        exact htrusted _ (Nat.lt_succ_of_le hle)
      | ok run =>
        obtain ⟨hholds, hsum⟩ := hok run hv
        refine partcloneVerifyThrough_spec hreseed hstrip (by simp only; omega)
          ⟨?_, ?_, fun _ => hholds⟩
        · exact fun hre => absurd (hreseed.symm.trans hre) Bool.false_ne_true
        · intro _ k hk
          rcases Nat.lt_succ_iff_lt_or_eq.mp hk with hlt | rfl
          · exact hs.through hreseed k hlt
          · exact hiff.mpr hsum
    · rw [if_neg hle]
      refine ⟨hs, fun _ => ?_, fun _ _ h => by cases h⟩
      rw [PartcloneTrusted, if_neg (by simp [hreseed])]
      exact fun k hk => hs.through hreseed k (by omega)

/-- The bytes of a stored block may be returned. -/
def PartclonePasses (xxh64 : List UInt8 → ℕ) (img : PartcloneImage) (storedBlock : ℕ) : Prop :=
  img.checksumMode = .none ∨ PartcloneTrusted xxh64 img (img.strip storedBlock)

instance (xxh64 : List UInt8 → ℕ) (img : PartcloneImage) (storedBlock : ℕ) :
    Decidable (PartclonePasses xxh64 img storedBlock) := inferInstanceAs (Decidable (_ ∨ _))

/-- `partclone_verify_block` verifies just that. -/
theorem partcloneVerifyBlock_spec {s : PartcloneState} (hs : s.Sound xxh64 img) {storedBlock : ℕ}
    (hstored : storedBlock < img.usedBlocks) :
    PartcloneVerified xxh64 img (PartclonePasses xxh64 img storedBlock)
      (partcloneVerifyBlock xxh64 img s storedBlock) := by
  rw [partcloneVerifyBlock]
  by_cases hplain : img.checksumMode = .none
  · rw [if_pos hplain]
    exact ⟨hs, fun _ => .inl hplain, fun _ _ h => by cases h⟩
  have hstrip := hgeom.strip_lt hplain hstored
  have heq : partcloneStripOf img storedBlock = img.strip storedBlock := by
    rw [partcloneStripOf]
    cases hversion : img.version with
    | v1 => rw [PartcloneImage.strip, (hgeom.v1 hversion).2.1, Nat.div_one]
    | v2 => rfl
  have hpasses : PartcloneTrusted xxh64 img (img.strip storedBlock)
      ↔ PartclonePasses xxh64 img storedBlock := by
    rw [PartclonePasses, or_iff_right hplain]
  simp only [if_neg hplain, heq]
  refine PartcloneVerified.congr ?_ hpasses
  by_cases hreseed : img.reseedChecksum = true
  · rw [if_pos hreseed, PartcloneTrusted, if_pos hreseed]
    have hiff := @partcloneVerifies_iff xxh64 img (img.strip storedBlock)
    rw [if_pos hreseed] at hiff
    by_cases hv : s.verified (img.strip storedBlock) = true
    · rw [if_pos hv]
      exact ⟨hs, fun _ => hs.verified hreseed _ hv, fun _ _ h => by cases h⟩
    · rw [if_neg hv]
      obtain ⟨hok, herror⟩ := @partcloneVerifyStrip_spec xxh64 _ hgeom s.calls _ _ _ hstrip
        (PartcloneRunning.holds_start img.checksumMode)
      cases hr : partcloneVerifyStrip xxh64 img s.calls .start (img.strip storedBlock) with
      | error e =>
        refine ⟨hs.calls _, (fun h => by cases h), fun hcalm e' he => ?_⟩
        obtain rfl := Except.error.inj he
        obtain ⟨hbad, hsum⟩ := herror hcalm e hr
        exact ⟨hbad, fun h => hsum (hiff.mp h)⟩
      | ok run =>
        have hverifies := hiff.mpr (hok run hr).2
        refine ⟨⟨fun _ k hk => ?_, hs.through, hs.running⟩, fun _ => hverifies,
          fun _ _ h => by cases h⟩
        simp only at hk
        split_ifs at hk with hkeq
        · exact hkeq ▸ hverifies
        · exact hs.verified hreseed k hk
  · rw [if_neg hreseed]
    exact partcloneVerifyThrough_spec hgeom (by simpa using hreseed) hstrip (Nat.sub_le _ _) hs

/-! ### Reads -/

omit hgeom in
/-- The result of a read of `len` bytes from `off` on. -/
def partcloneResult (xxh64 : List UInt8 → ℕ) (img : PartcloneImage) (off len : ℕ) :
    Except GrubError (List UInt8) :=
  if img.totalBytes < off ∨ img.totalBytes - off < len then
    .error ⟨.outOfRange, "read past end of partclone image"⟩
  else if len = 0 then .ok []
  else if img.totalBlocks * img.blockSize ≤ off then .ok (List.replicate len 0)
  else
    let block := off / img.blockSize
    let want := min len (img.blockSize - off % img.blockSize)
    if partcloneUsed img block = false then .ok (List.replicate want 0)
    else
      let storedBlock := partcloneStoredIndex img block
      if PartclonePasses xxh64 img storedBlock then
        .ok (slice img.carrier.byte (partcloneStoredOffset img
          storedBlock + off % img.blockSize) want)
      else .error (partcloneBadStrip img)

theorem partcloneStoredIndex_eq {block : ℕ} (h : block ≤ img.totalBlocks) :
    partcloneStoredIndex img block = Rank.ones img.bitmap block := by
  induction block with
  | zero => rw [partcloneStoredIndex, Nat.count_zero, Rank.ones_zero]
  | succ block ih =>
    have hbit := hgeom.bitmap block h
    rw [partcloneStoredIndex, Nat.count_succ, ← partcloneStoredIndex, ih (by omega), Rank.ones_succ,
      hbit]

theorem partcloneRank_eq {block : ℕ} (h : block < img.totalBlocks) :
    partcloneRank img block = partcloneStoredIndex img block := by
  have hgroup : 8 * (PARTCLONE_RANK_BLOCKS / 8) = PARTCLONE_RANK_BLOCKS := rfl
  have hle := Nat.div_mul_le_self block PARTCLONE_RANK_BLOCKS
  rw [partcloneStoredIndex_eq hgeom (Nat.le_of_lt h), partcloneRank]
  refine Rank.lookup_eq_ones _ _ ?_
  rw [Nat.mul_left_comm, hgroup]
  exact hgeom.rank _ (by omega)

theorem partcloneStoredIndex_lt {block : ℕ} (h : block < img.totalBlocks)
    (hused : partcloneUsed img block = true) : partcloneStoredIndex img block < img.usedBlocks := by
  rw [partcloneStoredIndex_eq hgeom (Nat.le_of_lt h), hgeom.used]
  exact Rank.ones_lt _ ((hgeom.bitmap block h).trans hused) h

/-- `partclone_read` in a sound state. -/
theorem partcloneRead_spec {s : PartcloneState} (hs : s.Sound xxh64 img) (off len : ℕ) :
    (partcloneRead xxh64 img s off len).2.Sound xxh64 img
      ∧ (∀ bs, (partcloneRead xxh64 img s off len).1 = .ok bs →
        partcloneResult xxh64 img off len = .ok bs)
      ∧ (img.carrier.Calm →
        (partcloneRead xxh64 img s off len).1 = partcloneResult xxh64 img off len) := by
  have hlogical := hgeom.logical_le
  have htotal := hgeom.total_lt
  have hlt := img.carrier.size_lt
  rw [partcloneRead, partcloneResult, u64_of_lt (by omega)]
  by_cases hpast : img.totalBytes < off ∨ img.totalBytes - off < len
  · rw [if_pos hpast, if_pos hpast]
    exact ⟨hs, (fun _ h => by cases h), fun _ => rfl⟩
  by_cases hlen : len = 0
  · rw [if_neg hpast, if_neg hpast, if_pos hlen, if_pos hlen]
    exact ⟨hs, fun _ h => h, fun _ => rfl⟩
  by_cases htail : img.totalBlocks * img.blockSize ≤ off
  · rw [if_neg hpast, if_neg hpast, if_neg hlen, if_neg hlen, if_pos htail, if_pos htail,
      Nat.min_eq_left (by omega)]
    exact ⟨hs, fun _ h => h, fun _ => rfl⟩
  rw [if_neg hpast, if_neg hpast, if_neg hlen, if_neg hlen, if_neg htail, if_neg htail]
  have hblock : off / img.blockSize < img.totalBlocks :=
    (Nat.div_lt_iff_lt_mul hgeom.block_pos).mpr (by omega)
  simp only [partcloneBlockUsed, hgeom.bitmap _ hblock]
  by_cases hused : partcloneUsed img (off / img.blockSize) = false
  · rw [if_pos hused, if_pos hused]
    exact ⟨hs, fun _ h => h, fun _ => rfl⟩
  rw [if_neg hused, if_neg hused, partcloneRank_eq hgeom hblock]
  have hstored := partcloneStoredIndex_lt hgeom hblock (by simpa using hused)
  have hin := Nat.mod_lt off hgeom.block_pos
  have hend := hgeom.stored_le hstored
  generalize partcloneStoredIndex img (off / img.blockSize) = stored at hstored hend
  have hverified := partcloneVerifyBlock_spec hgeom hs hstored
  generalize partcloneVerifyBlock xxh64 img s stored = r at hverified
  obtain ⟨e | ⟨⟩, s'⟩ := r
  · refine ⟨hverified.sound, (fun _ h => by cases h), fun hcalm => ?_⟩
    obtain ⟨hbad, hnot⟩ := hverified.bad hcalm e rfl
    rw [if_neg hnot, hbad]
  rw [if_pos (hverified.holds rfl), u64_of_lt (by omega)]
  simp only
  cases hread : partclonePread img.carrier s'.calls
    (partcloneStoredOffset img stored + off % img.blockSize)
    (min len (img.blockSize - off % img.blockSize)) with
  | error e =>
    refine ⟨hverified.sound.calls _, (fun _ h => by cases h), fun hcalm => ?_⟩
    rw [partclonePread_of_le (by omega) (hcalm _ _)] at hread
    cases hread
  | ok buf =>
    simp only [(partclonePread_eq_ok hread).2, slice_from]
    exact ⟨hverified.sound.calls _, fun _ h => h, fun _ => trivial⟩

end Verifying

/-- For every image that opens, every history of reads and every request: a read that succeeds
returns the result of the request, and unless the carrier fails every read does. Stored blocks and
checksums lie apart. -/
theorem partcloneRead_view {carrier : GrubFile} {img : PartcloneImage}
    (hopen : partcloneOpenImage carrier = .ok img) (xxh64 : List UInt8 → ℕ) (calls : ℕ) :
    (∀ (rs : List (ℕ × ℕ)) (off len : ℕ),
      let s := after (fun s r => partcloneRead xxh64 img s r.1 r.2) (.init calls) rs
      (∀ bs, (partcloneRead xxh64 img s off len).1 = .ok bs →
          partcloneResult xxh64 img off len = .ok bs)
        ∧ (carrier.Calm → (partcloneRead xxh64 img s off len).1
          = partcloneResult xxh64 img off len))
      ∧ img.Apart := by
  obtain ⟨rfl, hgeom⟩ := partcloneOpenImage_geometry hopen
  refine ⟨fun rs off len => ?_, hgeom.apart⟩
  have hstep : ∀ s (r : ℕ × ℕ), PartcloneState.Sound xxh64 img s →
      PartcloneState.Sound xxh64 img (partcloneRead xxh64 img s r.1 r.2).2 :=
    fun s r hs => (partcloneRead_spec hgeom hs r.1 r.2).1
  have hs := after_inv hstep (@PartcloneState.sound_init xxh64 img calls) rs
  exact (partcloneRead_spec hgeom hs off len).2

/-- The byte at `x` of the device. -/
def partcloneByte (img : PartcloneImage) (x : ℕ) : UInt8 :=
  if img.totalBlocks * img.blockSize ≤ x ∨ partcloneUsed img (x / img.blockSize) = false then 0
  else img.carrier.byte
    (partcloneStoredOffset img (partcloneStoredIndex img (x / img.blockSize)) + x % img.blockSize)

theorem partcloneResult_agrees {xxh64 : List UInt8 → ℕ} {img : PartcloneImage}
    (hgeom : img.Geometry) {off len : ℕ} {bs : List UInt8}
    (h : partcloneResult xxh64 img off len = .ok bs) :
    bs.length ≤ len ∧ Agrees (fun x b => b = partcloneByte img x) off bs := by
  have hzeros : ∀ n, (∀ i < n, partcloneByte img (off + i) = 0) →
      Agrees (fun x b => b = partcloneByte img x) off (List.replicate n 0) := by
    intro n hzero
    refine agrees_iff_getElem.mpr fun i hi => ?_
    rw [List.length_replicate] at hi
    rw [List.getElem_replicate, hzero i hi]
  rw [partcloneResult] at h
  by_cases hpast : img.totalBytes < off ∨ img.totalBytes - off < len
  · rw [if_pos hpast] at h
    cases h
  by_cases hlen : len = 0
  · rw [if_neg hpast, if_pos hlen] at h
    obtain rfl := Except.ok.inj h
    exact ⟨Nat.zero_le _, trivial⟩
  by_cases htail : img.totalBlocks * img.blockSize ≤ off
  · rw [if_neg hpast, if_neg hlen, if_pos htail] at h
    obtain rfl := Except.ok.inj h
    refine ⟨Nat.le_of_eq List.length_replicate, hzeros _ fun i _ => if_pos (.inl ?_)⟩
    exact Nat.le_trans htail (Nat.le_add_right _ _)
  rw [if_neg hpast, if_neg hlen, if_neg htail] at h
  have hin := Nat.mod_lt off hgeom.block_pos
  -- the piece ends with its block
  have hblock : ∀ i < min len (img.blockSize - off % img.blockSize),
      (off + i) / img.blockSize = off / img.blockSize
        ∧ (off + i) % img.blockSize = off % img.blockSize + i :=
    fun i hi => div_mod_add_of_lt (by omega)
  by_cases hused : partcloneUsed img (off / img.blockSize) = false
  · simp only [if_pos hused] at h
    obtain rfl := Except.ok.inj h
    refine ⟨by rw [List.length_replicate]; exact Nat.min_le_left _ _, hzeros _ fun i hi => ?_⟩
    rw [partcloneByte, (hblock i hi).1]
    exact if_pos (.inr hused)
  · simp only [if_neg hused] at h
    split_ifs at h with hpasses
    obtain rfl := Except.ok.inj h
    rw [length_slice]
    refine ⟨Nat.min_le_left _ _, agrees_iff_getElem.mpr fun i hi => ?_⟩
    rw [length_slice] at hi
    obtain ⟨hdiv, hmod⟩ := hblock i hi
    have hend : ¬ img.totalBlocks * img.blockSize ≤ off + i := by
      rw [← Nat.le_div_iff_mul_le hgeom.block_pos] at htail ⊢
      rwa [hdiv]
    rw [getElem_slice, partcloneByte, hdiv, hmod, if_neg (not_or.mpr ⟨hend, hused⟩), Nat.add_assoc]

/-- `grub_partclone_read` returns the bytes of the device. -/
theorem grubPartcloneRead_view {carrier : GrubFile} {img : PartcloneImage}
    (hopen : partcloneOpenImage carrier = .ok img) {xxh64 : List UInt8 → ℕ} {calls : ℕ}
    {rs : List (ℕ × ℕ)} {off len : ℕ} {bs : List UInt8}
    (h : (grubPartcloneRead xxh64 img (after (fun s r => grubPartcloneRead xxh64 img s r.1 r.2)
      (.init calls) rs) off len).1 = .ok bs) : bs = slice (partcloneByte img) off len := by
  obtain ⟨rfl, hgeom⟩ := partcloneOpenImage_geometry hopen
  have hread : ∀ s off len bs, PartcloneState.Sound xxh64 img s →
      (partcloneRead xxh64 img s off len).1 = .ok bs →
      PartcloneState.Sound xxh64 img (partcloneRead xxh64 img s off len).2 ∧ bs.length ≤ len
        ∧ Agrees (fun x b => b = partcloneByte img x) off bs := by
    intro s off len bs hs h
    obtain ⟨hsound, hok, -⟩ := partcloneRead_spec hgeom hs off len
    exact ⟨hsound, partcloneResult_agrees hgeom (hok bs h)⟩
  have hkeep : ∀ s off len, PartcloneState.Sound xxh64 img s →
      PartcloneState.Sound xxh64 img (partcloneRead xxh64 img s off len).2 :=
    fun s off len hs => (partcloneRead_spec hgeom hs off len).1
  have hstep : ∀ s (r : ℕ × ℕ), PartcloneState.Sound xxh64 img s →
      PartcloneState.Sound xxh64 img (grubPartcloneRead xxh64 img s r.1 r.2).2 :=
    fun s r hs => readAll_inv hkeep r.2 s r.1 r.2 hs
  have hs := after_inv hstep (@PartcloneState.sound_init xxh64 img calls) rs
  obtain ⟨hlen, hagrees⟩ := readAll_agrees hread hs h
  rw [hagrees.eq_slice, hlen]

/-- Five blocks of two bytes with the first, third and fifth in use, two blocks to a strip and a
cumulative CRC32. -/
def partcloneShortCarrier : GrubFile where
  size := 129
  byte := Buf.ofFields [
    (0, PARTCLONE_MAGIC),
    (30, [0x30, 0x30, 0x30, 0x32, 0xde, 0xc0]),
    (52, [12]), (60, [5]), (76, [3]), (84, [2]), (88, [18]),
    (92, [2, 0, 64, 0, 0x20, 0, 4, 0, 2]),
    (105, [1, 0x04, 0x4c, 0xbf, 0x79]),
    (110, [0x15, 0x99, 0xf4, 0x20, 0x40]),
    (115, [1, 2, 3, 4, 0x32, 0x04, 0xc3, 0x49]),
    (123, [5, 6, 0xdb, 0x88, 0x09, 0x7e])]
  fault := fun _ _ => none
  size_lt := by decide

def partcloneShortImage : PartcloneImage :=
  (partcloneOpenImage partcloneShortCarrier).toOption.get (by decide +kernel)

theorem partcloneOpenImage_short :
    partcloneOpenImage partcloneShortCarrier = .ok partcloneShortImage := eq_ok_get _

/-- The last block, after a read of the first. -/
theorem partcloneRead_view_short :
    (partcloneRead (fun _ => 0) partcloneShortImage
      (after (fun s r => partcloneRead (fun _ => 0) partcloneShortImage s r.1 r.2) (.init 1)
        [(0, 2)])
      8 2).1 = .ok [5, 6] := by
  have hview := partcloneRead_view partcloneOpenImage_short (fun _ => 0) 1
  rw [(hview.1 [(0, 2)] 8 2).2 fun _ _ => rfl]
  decide +kernel

theorem grubPartcloneRead_view_short :
    [2, 0, 0, 3, 4, 0, 0, 5] = slice (partcloneByte partcloneShortImage) 1 8 :=
  @grubPartcloneRead_view _ _ partcloneOpenImage_short (fun _ => 0) 1 [(0, 2)] 1 8 _
    (by decide +kernel)

end FsRover
