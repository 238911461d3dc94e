import FsRover.Io.Asif

/-!
# Reads of a sparse image and its caches

The bytes of the disk follow from the carrier alone, with exact offsets. A read that succeeds
returns them as long as both caches hold what their keys say. A load of a chunk group that fails
drops the key; a load of a bitmap block that fails keeps the key of the block before it, and the
carrier may have written into the buffer by then.

## Main definitions

* `FsRover.AsifImage.Geometry` : what opening guarantees.
* `FsRover.asifByte` : the byte at a place.
* `FsRover.AsifState.Sound` : the caches hold what their keys say.
* `FsRover.AsifSteady`, `FsRover.AsifSteadyRead` : no failed load of a bitmap block changes a block
  that is cached.

## Main results

* `FsRover.asifReadPiece_spec` : what one round of the read loop keeps and returns.
* `FsRover.grubAsifRead_view` : the reads of a run return the bytes of the disk.
-/

namespace FsRover

open Guards History

/-! ### Exact offsets -/

theorem asifAddOverflow_eq_some {left right n : ℕ} (h : asifAddOverflow left right = some n)
    (hright : right < 2 ^ 64) : n = left + right := by
  unfold asifAddOverflow at h
  split_ifs at h with hover
  rw [← Option.some.inj h, u64_of_lt (by omega)]

theorem asifMulOverflow_eq_some {left right n : ℕ} (h : asifMulOverflow left right = some n) :
    n = left * right ∧ n < 2 ^ 64 := by
  unfold asifMulOverflow at h
  split_ifs at h with hover
  have hlt : left * right < 2 ^ 64 := by
    rcases Nat.eq_zero_or_pos right with rfl | hpos
    · simp
    · have hle : left ≤ (2 ^ 64 - 1) / right := by
        by_contra hgt
        exact hover ⟨by omega, by omega⟩
      have hmul := (Nat.le_div_iff_mul_le hpos).mp hle
      omega
  rw [u64_of_lt hlt] at h
  exact ⟨(Option.some.inj h).symm, by rw [← Option.some.inj h]; exact hlt⟩

/-- What `asif_open_image` guarantees of the geometry. -/
structure AsifImage.Geometry (img : AsifImage) : Prop where
  chunk_pos : 0 < img.chunkSize
  chunk_lt : img.chunkSize < 2 ^ 32
  block_pos : 0 < img.blockSize
  block_dvd : img.blockSize ∣ img.chunkSize
  chunks : img.chunksPerGroup = 4 * img.blockSize
  group : img.groupSize = (img.chunksPerGroup + 1) * 8
  groups_pos : 0 < img.groupsPerTable
  groups_le : img.groupsPerTable ≤ img.chunkSize
  dataGroup : img.dataPerGroup = img.chunksPerGroup * img.chunkSize
  dataTable : img.dataPerTable = img.groupsPerTable * img.dataPerGroup
  media_lt : img.mediaSize < 2 ^ 64

theorem asifOpenImage_geometry {carrier : GrubFile} {img : AsifImage}
    (h : asifOpenImage carrier = .ok img) : img.Geometry := by
  simp only [asifOpenImage, bind_eq_ok_iff, refuseIf_eq_ok_iff, require_eq_ok_iff, exists_const] at h
  obtain ⟨header, -, -, -, hgeom, media, hmedia, maximum, -, -, entries, hentries, groupSize, hgroup,
    hgroups, dataGroup, hdataGroup, dataTable, hdataTable, h⟩ := h
  obtain ⟨-, -, _, -, _, -, _, -, _, -, -, h⟩ := h
  obtain rfl := Except.ok.inj h
  simp only [not_or] at hgeom
  obtain ⟨hchunk, hblock, -, hdvd, -⟩ := hgeom
  have hentries := asifAddOverflow_eq_some hentries (by decide)
  obtain ⟨hgroup, -⟩ := asifMulOverflow_eq_some hgroup
  exact {
    chunk_pos := Nat.pos_of_ne_zero hchunk
    chunk_lt := lostBe32_lt _ _
    block_pos := Nat.pos_of_ne_zero hblock
    block_dvd := Nat.dvd_of_mod_eq_zero (not_not.mp hdvd)
    chunks := rfl
    group := by rw [hgroup, hentries]
    groups_pos := Nat.pos_of_ne_zero hgroups
    groups_le := Nat.div_le_self _ _
    dataGroup := (asifMulOverflow_eq_some hdataGroup).1
    dataTable := (asifMulOverflow_eq_some hdataTable).1
    media_lt := (asifMulOverflow_eq_some hmedia).2 }

/-- The code computes the offset of a directory entry exactly, or fails. -/
theorem asifDirectoryEntry_eq_ok {img : AsifImage} {tableIndex off : ℕ}
    (h : asifDirectoryEntry img tableIndex = .ok off) :
    off = img.directoryOffset + 8 + tableIndex * 8 := by
  simp only [asifDirectoryEntry, bind_eq_ok_iff, require_eq_ok_iff] at h
  obtain ⟨delta, hdelta, start, hstart, hoff⟩ := h
  obtain ⟨rfl, hlt⟩ := asifMulOverflow_eq_some hdelta
  rw [asifAddOverflow_eq_some hoff hlt, asifAddOverflow_eq_some hstart (by decide)]

theorem asifChunkOffset_eq_ok {img : AsifImage} {chunk off : ℕ}
    (h : asifChunkOffset img chunk = .ok off) : off = chunk * img.chunkSize :=
  (asifMulOverflow_eq_some (require_eq_ok_iff.mp h)).1

/-- So it does that of a chunk group, -/
theorem asifGroupOffset_eq_ok {img : AsifImage} {tableChunk groupIndex off : ℕ}
    (h : asifGroupOffset img tableChunk groupIndex = .ok off) :
    off = tableChunk * img.chunkSize + groupIndex * img.groupSize := by
  simp only [asifGroupOffset, bind_eq_ok_iff, require_eq_ok_iff] at h
  obtain ⟨table, htable, delta, hdelta, hoff⟩ := h
  obtain ⟨rfl, hlt⟩ := asifMulOverflow_eq_some hdelta
  rw [asifAddOverflow_eq_some hoff hlt, asifChunkOffset_eq_ok htable]

/-- of a block of a bitmap, -/
theorem asifBitmapOffset_eq_ok {img : AsifImage} {bitmapChunk blockIndex off : ℕ}
    (h : asifBitmapOffset img bitmapChunk blockIndex = .ok off) :
    off = bitmapChunk * img.chunkSize + blockIndex * img.blockSize := by
  simp only [asifBitmapOffset, bind_eq_ok_iff, require_eq_ok_iff] at h
  obtain ⟨table, htable, delta, hdelta, hoff⟩ := h
  obtain ⟨rfl, hlt⟩ := asifMulOverflow_eq_some hdelta
  rw [asifAddOverflow_eq_some hoff hlt, asifChunkOffset_eq_ok htable]

/-- and that of a byte of a chunk. -/
theorem asifPhysical_eq_ok {img : AsifImage} (hgeom : img.Geometry) {chunk off physical : ℕ}
    (h : asifPhysical img chunk off = .ok physical) :
    physical = chunk * img.chunkSize + img.inChunk off := by
  simp only [asifPhysical, bind_eq_ok_iff, require_eq_ok_iff] at h
  obtain ⟨start, hstart, hphysical⟩ := h
  have hlt : img.inChunk off < img.chunkSize := Nat.mod_lt _ hgeom.chunk_pos
  have hchunk := hgeom.chunk_lt
  rw [asifAddOverflow_eq_some hphysical (by omega), asifChunkOffset_eq_ok hstart]

/-! ### Indices -/

namespace AsifImage

variable {img : AsifImage} (hgeom : img.Geometry)
include hgeom

/-- The indices of an offset depend on the number of its chunk only. -/
theorem Geometry.index_eq (off : ℕ) :
    img.tableIndex off = off / img.chunkSize / (img.chunksPerGroup * img.groupsPerTable)
      ∧ img.groupIndex off = off / img.chunkSize / img.chunksPerGroup % img.groupsPerTable
      ∧ img.dataIndex off = off / img.chunkSize % img.chunksPerGroup
      ∧ img.inChunk off = off % img.chunkSize := by
  have hgroup : img.dataPerGroup = img.chunkSize * img.chunksPerGroup := by
    rw [hgeom.dataGroup, Nat.mul_comm]
  have htable : img.dataPerTable = img.dataPerGroup * img.groupsPerTable := by
    rw [hgeom.dataTable, Nat.mul_comm]
  have hmod : off % img.dataPerTable % img.dataPerGroup = off % img.dataPerGroup := by
    rw [htable]
    exact Nat.mod_mul_right_mod _ _ _
  refine ⟨?_, ?_, ?_, ?_⟩
  · rw [tableIndex, htable, hgroup, Nat.mul_assoc, Nat.div_div_eq_div_mul]
  · rw [groupIndex, htable, Nat.mod_mul_right_div_self, hgroup, Nat.div_div_eq_div_mul]
  · rw [dataIndex, hmod, hgroup, Nat.mod_mul_right_div_self]
  · rw [inChunk, hmod, hgroup, Nat.mod_mul_right_mod]

/-- Within a chunk the indices stay, and the place in the chunk moves along. -/
theorem Geometry.index_add {off d : ℕ} (hd : d < img.chunkSize - img.inChunk off) :
    img.tableIndex (off + d) = img.tableIndex off ∧ img.groupIndex (off + d) = img.groupIndex off
      ∧ img.dataIndex (off + d) = img.dataIndex off ∧ img.inChunk (off + d) = img.inChunk off + d := by
  obtain ⟨h₁, h₂, h₃, h₄⟩ := hgeom.index_eq off
  obtain ⟨k₁, k₂, k₃, k₄⟩ := hgeom.index_eq (off + d)
  rw [h₄] at hd
  obtain ⟨hdiv, hmod⟩ := div_mod_add_of_lt (m := img.chunkSize) (n := off) (d := d) (by omega)
  rw [h₁, h₂, h₃, h₄, k₁, k₂, k₃, k₄, hdiv, hmod]
  exact ⟨rfl, rfl, rfl, rfl⟩

theorem Geometry.sector_add {off d : ℕ} (hd : d < img.chunkSize - img.inChunk off)
    (hd' : d < img.blockSize - off % img.blockSize) :
    img.sectorIndex (off + d) = img.sectorIndex off := by
  obtain ⟨-, -, hdata, hin⟩ := hgeom.index_add hd
  have hmod : img.inChunk off % img.blockSize = off % img.blockSize := by
    rw [(hgeom.index_eq off).2.2.2, Nat.mod_mod_of_dvd _ hgeom.block_dvd]
  obtain ⟨hdiv, -⟩ := div_mod_add_of_lt (m := img.blockSize) (n := img.inChunk off) (d := d) (by omega)
  rw [sectorIndex, sectorIndex, hdata, hin, hdiv]

theorem Geometry.groupIndex_lt (off : ℕ) : img.groupIndex off < 2 ^ 32 := by
  rw [(hgeom.index_eq off).2.1]
  have hlt := Nat.mod_lt (off / img.chunkSize / img.chunksPerGroup) hgeom.groups_pos
  have hle := hgeom.groups_le
  have hchunk := hgeom.chunk_lt
  omega

end AsifImage

/-! ### The disk -/

/-- The chunk of the table `tableIndex`, from the directory. -/
def asifTableChunk (img : AsifImage) (tableIndex : ℕ) : ℕ :=
  lostBe64 (img.carrier.byte.from (img.directoryOffset + 8 + tableIndex * 8)) 0

/-- A chunk group of a table. -/
def asifGroupAt (img : AsifImage) (tableIndex groupIndex : ℕ) : Buf :=
  img.carrier.byte.from (asifTableChunk img tableIndex * img.chunkSize + groupIndex * img.groupSize)

/-- A block of a bitmap. -/
def asifBitmapAt (img : AsifImage) (bitmapChunk blockIndex : ℕ) : Buf :=
  img.carrier.byte.from (bitmapChunk * img.chunkSize + blockIndex * img.blockSize)

/-- The byte at `x` of the disk: directory entry, table, chunk group entry, sector state, chunk. -/
def asifByte (img : AsifImage) (x : ℕ) : Option UInt8 :=
  if asifTableChunk img (img.tableIndex x) = 0 then some 0
  else
    match asifEntry img (asifGroupAt img (img.tableIndex x) (img.groupIndex x)) (img.dataIndex x) with
    | .error _ => none
    | .ok .sparse => some 0
    | .ok (.whole chunk) => some (img.carrier.byte (chunk * img.chunkSize + img.inChunk x))
    | .ok (.sectors chunk bitmapChunk) =>
      let sector := img.sectorIndex x
      let state := asifSectorState img (asifBitmapAt img bitmapChunk (sector / 4 / img.blockSize)) sector
      if state = 3 then none
      else if state = 0 ∨ state = 2 then some 0
      else some (img.carrier.byte (chunk * img.chunkSize + img.inChunk x))

/-! ### The caches -/

/-- Both caches hold what their keys say. -/
structure AsifState.Sound (img : AsifImage) (s : AsifState) : Prop where
  sparse : s.cachedGroup ≠ ASIF_CACHE_NONE →
    (s.cachedSparseTable = true ↔ asifTableChunk img s.cachedTable = 0)
  group : s.cachedGroup ≠ ASIF_CACHE_NONE → asifTableChunk img s.cachedTable ≠ 0 →
    s.groupCache = asifGroupAt img s.cachedTable s.cachedGroup
  bitmap : s.cachedBitmapChunk ≠ ASIF_CACHE_NONE → ∀ i < img.blockSize,
    s.bitmapCache i = asifBitmapAt img s.cachedBitmapChunk s.cachedBitmapBlock i

theorem AsifState.sound_init (img : AsifImage) (group bitmap : Buf) (calls : ℕ) :
    (AsifState.init group bitmap calls).Sound img where
  sparse := fun h => absurd rfl h
  group := fun h => absurd rfl h
  bitmap := fun h => absurd rfl h

/-- Without a chunk group the state is sound as far as the bitmap is. -/
theorem AsifState.Sound.of_noGroup {img : AsifImage} {s s' : AsifState} (h : s.Sound img)
    (hgroup : s'.cachedGroup = ASIF_CACHE_NONE) (hbitmap : s'.bitmapCache = s.bitmapCache)
    (hchunk : s'.cachedBitmapChunk = s.cachedBitmapChunk)
    (hblock : s'.cachedBitmapBlock = s.cachedBitmapBlock) : s'.Sound img where
  sparse := fun hne => absurd hgroup hne
  group := fun hne => absurd hgroup hne
  bitmap := by
    rw [hchunk, hblock, hbitmap]
    exact h.bitmap

theorem AsifState.Sound.calls {img : AsifImage} {s : AsifState} (h : s.Sound img) (calls : ℕ) :
    { s with calls }.Sound img := ⟨h.sparse, h.group, h.bitmap⟩

/-- `asif_load_group` keeps the caches sound, leaves the bitmap alone, and when it succeeds caches
the chunk group asked for. -/
theorem asifLoadGroup_spec {img : AsifImage} {s : AsifState} (hs : s.Sound img)
    (tableIndex groupIndex : ℕ) :
    (asifLoadGroup img s tableIndex groupIndex).2.Sound img
      ∧ (asifLoadGroup img s tableIndex groupIndex).2.cachedBitmapChunk = s.cachedBitmapChunk
      ∧ ((asifLoadGroup img s tableIndex groupIndex).1 = .ok () →
        (asifLoadGroup img s tableIndex groupIndex).2.cachedTable = tableIndex
          ∧ (asifLoadGroup img s tableIndex groupIndex).2.cachedGroup = groupIndex) := by
  simp only [asifLoadGroup]
  split_ifs with hhit hrange
  · exact ⟨hs, rfl, fun _ => hhit⟩
  · exact ⟨hs, rfl, fun h => by cases h⟩
  · cases hoff : asifDirectoryEntry img tableIndex with
    | error e => exact ⟨hs, rfl, fun h => by cases h⟩
    | ok off =>
      simp only
      cases hentry : asifPread img.carrier s.calls off 8 "directory entry" with
      | error e => exact ⟨hs.calls _, rfl, fun h => by cases h⟩
      | ok entry =>
        have hchunk : lostBe64 entry 0 = asifTableChunk img tableIndex := by
          rw [(GrubFile.pread_eq_ok hentry).2, asifDirectoryEntry_eq_ok hoff]
          rfl
        simp only [hchunk]
        split_ifs with hzero
        · refine ⟨⟨fun _ => by simp [hzero], fun _ hne => absurd hzero hne, hs.bitmap⟩, rfl,
            fun _ => ⟨rfl, rfl⟩⟩
        · cases hgroup : asifGroupOffset img (asifTableChunk img tableIndex) groupIndex with
          | error e => exact ⟨hs.of_noGroup rfl rfl rfl rfl, rfl, fun h => by cases h⟩
          | ok groupOff =>
            simp only
            cases hread : asifPread img.carrier (s.calls + 1) groupOff img.groupSize "chunk group" with
            | error e => exact ⟨hs.of_noGroup rfl rfl rfl rfl, rfl, fun h => by cases h⟩
            | ok group =>
              refine ⟨⟨fun _ => by simp [hzero], fun _ _ => ?_, hs.bitmap⟩, rfl, fun _ => ⟨rfl, rfl⟩⟩
              rw [(GrubFile.pread_eq_ok hread).2, asifGroupOffset_eq_ok hgroup]
              rfl

/-- A load of a bitmap block in the state `s` that fails in the carrier leaves the bytes of the
block that is cached. -/
def AsifBitmapSteady (img : AsifImage) (s : AsifState) (bitmapChunk bitmapByte : ℕ) : Prop :=
  s.cachedBitmapChunk ≠ ASIF_CACHE_NONE →
    ¬ (s.cachedBitmapChunk = bitmapChunk ∧ s.cachedBitmapBlock = bitmapByte / img.blockSize) →
    ∀ off e left, asifBitmapOffset img bitmapChunk (bitmapByte / img.blockSize) = .ok off →
      asifPread img.carrier s.calls off img.blockSize "bitmap chunk" = .error (e, some left) →
        ∀ i < img.blockSize, left i = s.bitmapCache i

/-- `asif_load_bitmap_block` caches the block asked for when it succeeds, and keeps the caches sound
when it succeeds or fails without changing a cached block. -/
theorem asifLoadBitmapBlock_spec {img : AsifImage} {s : AsifState} (hs : s.Sound img)
    (bitmapChunk bitmapByte : ℕ) :
    (AsifBitmapSteady img s bitmapChunk bitmapByte →
        (asifLoadBitmapBlock img s bitmapChunk bitmapByte).2.Sound img)
      ∧ ((asifLoadBitmapBlock img s bitmapChunk bitmapByte).1 = .ok () →
        (asifLoadBitmapBlock img s bitmapChunk bitmapByte).2.Sound img
          ∧ (asifLoadBitmapBlock img s bitmapChunk bitmapByte).2.cachedBitmapChunk = bitmapChunk
          ∧ (asifLoadBitmapBlock img s bitmapChunk bitmapByte).2.cachedBitmapBlock
            = bitmapByte / img.blockSize) := by
  simp only [asifLoadBitmapBlock]
  split_ifs with hhit hrange
  · exact ⟨fun _ => hs, fun _ => ⟨hs, hhit⟩⟩
  · exact ⟨fun _ => hs, fun h => by cases h⟩
  · cases hoff : asifBitmapOffset img bitmapChunk (bitmapByte / img.blockSize) with
    | error e => exact ⟨fun _ => hs, fun h => by cases h⟩
    | ok off =>
      simp only
      cases hread : asifPread img.carrier s.calls off img.blockSize "bitmap chunk" with
      | error failure =>
        obtain ⟨e, left⟩ := failure
        refine ⟨fun hsteady => ⟨hs.sparse, hs.group, fun hne i hi => ?_⟩, fun h => by cases h⟩
        cases left with
        | none => exact hs.bitmap hne i hi
        | some left => exact (hsteady hne hhit off e left hoff hread i hi).trans (hs.bitmap hne i hi)
      | ok block =>
        have hblock : block = asifBitmapAt img bitmapChunk (bitmapByte / img.blockSize) := by
          rw [(GrubFile.pread_eq_ok hread).2, asifBitmapOffset_eq_ok hoff]
          rfl
        have hsound : AsifState.Sound img { s with
            bitmapCache := block
            cachedBitmapChunk := bitmapChunk
            cachedBitmapBlock := bitmapByte / img.blockSize
            calls := s.calls + 1 } := ⟨hs.sparse, hs.group, fun _ i _ => by rw [hblock]⟩
        exact ⟨fun _ => hsound, fun _ => ⟨hsound, rfl, rfl⟩⟩

/-! ### Reads -/

/-- In the state `s` the bitmap load for the byte at `off`, if there is one, is steady. -/
def AsifSteady (img : AsifImage) (s : AsifState) (off : ℕ) : Prop :=
  match asifLoadGroup img s (img.tableIndex off) (img.groupIndex off) with
  | (.error _, _) => True
  | (.ok (), s) =>
    s.cachedSparseTable = false → ∀ chunk bitmapChunk,
      asifEntry img s.groupCache (img.dataIndex off) = .ok (.sectors chunk bitmapChunk) →
        AsifBitmapSteady img s bitmapChunk (img.sectorIndex off / 4)

/-- What `asif_map` says of the bytes from `off` on. -/
structure AsifMapped (img : AsifImage) (off available : ℕ) (physical : Option ℕ) : Prop where
  pos : off < img.mediaSize → 0 < available
  le : available ≤ img.mediaSize - off
  byte : ∀ d < available, asifByte img (off + d)
    = some (match physical with
      | none => 0
      | some p => img.carrier.byte (p + d))

theorem asifEntry_bitmap_ne {img : AsifImage} {group : Buf} {dataIndex chunk bitmapChunk : ℕ}
    (h : asifEntry img group dataIndex = .ok (.sectors chunk bitmapChunk)) :
    bitmapChunk ≠ ASIF_CACHE_NONE := by
  simp only [asifEntry, bind_eq_ok_iff, refuseIf_eq_ok_iff, exists_const] at h
  obtain ⟨-, h⟩ := h
  split_ifs at h with hsparse hsectors
  · simp [bind_eq_ok_iff] at h
  · simp only [bind_eq_ok_iff, refuseIf_eq_ok_iff, exists_const, Except.ok.injEq,
      AsifEntry.sectors.injEq] at h
    obtain ⟨-, -, -, rfl⟩ := h
    have hle : lostBe64 group (img.chunksPerGroup * 8) &&& ASIF_ENTRY_CHUNK_MASK
        ≤ ASIF_ENTRY_CHUNK_MASK := Nat.and_le_right
    have hlt : ASIF_ENTRY_CHUNK_MASK < ASIF_CACHE_NONE := by decide
    omega
  · simp [bind_eq_ok_iff] at h

/-- A sector state that is read from a sound cache is that of the disk. -/
theorem asifSectorState_congr {img : AsifImage} (hgeom : img.Geometry) {b b' : Buf}
    (h : ∀ i < img.blockSize, b i = b' i) (sector : ℕ) :
    asifSectorState img b sector = asifSectorState img b' sector := by
  unfold asifSectorState byteAt
  rw [h _ (Nat.mod_lt _ hgeom.block_pos)]

/-- The end of `asif_map` places the bytes of a chunk one after the other. -/
theorem asifPhysical_map {img : AsifImage} (hgeom : img.Geometry) {chunk off n available : ℕ}
    {physical : Option ℕ}
    (h : (asifPhysical img chunk off).map (fun p => (n, some p)) = .ok (available, physical)) :
    available = n ∧ physical = some (chunk * img.chunkSize + img.inChunk off) := by
  cases hp : asifPhysical img chunk off with
  | error e => simp [hp, Except.map] at h
  | ok p =>
    rw [hp] at h
    obtain ⟨rfl, rfl⟩ := Prod.mk.inj (Except.ok.inj h)
    exact ⟨rfl, by rw [asifPhysical_eq_ok hgeom hp]⟩

/-- The byte at a place in a chunk, by the entry of the chunk. -/
theorem asifByte_of_entry {img : AsifImage} (hgeom : img.Geometry) {off d : ℕ} {entry : AsifEntry}
    (htable : asifTableChunk img (img.tableIndex off) ≠ 0)
    (hd : d < img.chunkSize - img.inChunk off)
    (hentry : asifEntry img (asifGroupAt img (img.tableIndex off) (img.groupIndex off))
      (img.dataIndex off) = .ok entry) :
    asifByte img (off + d) = match entry with
      | .sparse => some 0
      | .whole chunk => some (img.carrier.byte (chunk * img.chunkSize + (img.inChunk off + d)))
      | .sectors chunk bitmapChunk =>
        let sector := img.sectorIndex (off + d)
        let state := asifSectorState img
          (asifBitmapAt img bitmapChunk (sector / 4 / img.blockSize)) sector
        if state = 3 then none
        else if state = 0 ∨ state = 2 then some 0
        else some (img.carrier.byte (chunk * img.chunkSize + (img.inChunk off + d))) := by
  obtain ⟨ht, hg, hdata, hin⟩ := hgeom.index_add hd
  simp only [asifByte, ht, hg, hdata, hin, htable, if_false, hentry]
  cases entry <;> rfl

/-- `asif_map` keeps the caches sound when it succeeds or its bitmap load is steady, and maps as the
carrier says when it succeeds. -/
theorem asifMap_spec {img : AsifImage} (hgeom : img.Geometry) {s : AsifState} (hs : s.Sound img)
    (off : ℕ) :
    (AsifSteady img s off → (asifMap img s off).2.Sound img)
      ∧ ∀ available physical, (asifMap img s off).1 = .ok (available, physical) →
        (asifMap img s off).2.Sound img ∧ AsifMapped img off available physical := by
  have hgroup := hgeom.groupIndex_lt off
  have hchunk : img.inChunk off < img.chunkSize := Nat.mod_lt _ hgeom.chunk_pos
  have hblock := Nat.mod_lt off hgeom.block_pos
  obtain ⟨hload, -, hkey⟩ := asifLoadGroup_spec hs (img.tableIndex off) (img.groupIndex off)
  simp only [asifMap, AsifSteady]
  generalize asifLoadGroup img s (img.tableIndex off) (img.groupIndex off) = r at hload hkey
  obtain ⟨_ | ⟨⟩, s'⟩ := r
  · exact ⟨fun _ => hload, fun available physical h => by cases h⟩
  obtain ⟨htable, hgroup'⟩ := hkey rfl
  simp only at hload htable hgroup' ⊢
  have hne : s'.cachedGroup ≠ ASIF_CACHE_NONE := by
    simp only [hgroup', ASIF_CACHE_NONE]
    omega
  have hsparse := hload.sparse hne
  rw [htable] at hsparse
  cases hcached : s'.cachedSparseTable with
  | true =>
    refine ⟨fun _ => hload, fun available physical h => ⟨hload, ?_⟩⟩
    obtain ⟨rfl, rfl⟩ := Prod.mk.inj (Except.ok.inj h)
    refine ⟨fun hoff => by omega, by omega, fun d hd => ?_⟩
    obtain ⟨ht, -⟩ := @AsifImage.Geometry.index_add _ hgeom off d (by omega)
    simp only [asifByte, ht, hsparse.mp hcached, if_true]
  | false =>
    have htableChunk : asifTableChunk img (img.tableIndex off) ≠ 0 := fun h => by
      rw [hsparse.mpr h] at hcached
      cases hcached
    have hcache := hload.group hne (htable ▸ htableChunk)
    rw [htable, hgroup'] at hcache
    rw [hcache]
    simp only [Bool.false_eq_true, if_false]
    have hbyte := fun {d} (hd : d < img.chunkSize - img.inChunk off) {entry} =>
      @asifByte_of_entry img hgeom off d entry htableChunk hd
    cases hentry : asifEntry img (asifGroupAt img (img.tableIndex off) (img.groupIndex off))
        (img.dataIndex off) with
    | error e => exact ⟨fun _ => hload, fun available physical h => by cases h⟩
    | ok entry =>
      cases entry with
      | sparse =>
        refine ⟨fun _ => hload, fun available physical h => ⟨hload, ?_⟩⟩
        obtain ⟨rfl, rfl⟩ := Prod.mk.inj (Except.ok.inj h)
        exact ⟨fun hoff => by omega, by omega, fun d hd => hbyte (by omega) hentry⟩
      | whole chunk =>
        refine ⟨fun _ => hload, fun available physical h => ⟨hload, ?_⟩⟩
        obtain ⟨rfl, rfl⟩ := asifPhysical_map hgeom h
        refine ⟨fun hoff => by omega, by omega, fun d hd => ?_⟩
        rw [hbyte (by omega) hentry]
        simp only [Nat.add_assoc]
      | sectors chunk bitmapChunk =>
        have hbitmapNe := asifEntry_bitmap_ne hentry
        obtain ⟨hsteady, hok⟩ := asifLoadBitmapBlock_spec hload bitmapChunk (img.sectorIndex off / 4)
        simp only
        generalize asifLoadBitmapBlock img s' bitmapChunk (img.sectorIndex off / 4) = r at hsteady hok
        obtain ⟨_ | ⟨⟩, s''⟩ := r
        · refine ⟨fun h => hsteady (h trivial chunk bitmapChunk rfl), fun available physical h => ?_⟩
          cases h
        obtain ⟨hsound, hbitmap, hblockIndex⟩ := hok rfl
        have hstate : asifSectorState img s''.bitmapCache (img.sectorIndex off)
            = asifSectorState img (asifBitmapAt img bitmapChunk
              (img.sectorIndex off / 4 / img.blockSize)) (img.sectorIndex off) := by
          refine asifSectorState_congr hgeom (fun i hi => ?_) _
          rw [hsound.bitmap (hbitmap ▸ hbitmapNe) i hi, hbitmap, hblockIndex]
        -- within a sector the state is the same
        have hsector : ∀ {d}, d < img.chunkSize - img.inChunk off →
            d < img.blockSize - off % img.blockSize → asifByte img (off + d)
              = let state := asifSectorState img s''.bitmapCache (img.sectorIndex off)
                if state = 3 then none
                else if state = 0 ∨ state = 2 then some 0
                else some (img.carrier.byte (chunk * img.chunkSize + (img.inChunk off + d))) := by
          intro d hd hd'
          rw [hbyte hd hentry]
          simp only [hgeom.sector_add hd hd', hstate]
        simp only at hsound ⊢
        split_ifs with hbad hzero
        · exact ⟨fun _ => hsound, fun available physical h => by cases h⟩
        · refine ⟨fun _ => hsound, fun available physical h => ⟨hsound, ?_⟩⟩
          obtain ⟨rfl, rfl⟩ := Prod.mk.inj (Except.ok.inj h)
          refine ⟨fun hoff => by omega, by omega, fun d hd => ?_⟩
          rw [hsector (by omega) (by omega)]
          simp only [hbad, hzero, if_true, if_false]
        · refine ⟨fun _ => hsound, fun available physical h => ⟨hsound, ?_⟩⟩
          obtain ⟨rfl, rfl⟩ := asifPhysical_map hgeom h
          refine ⟨fun hoff => by omega, by omega, fun d hd => ?_⟩
          rw [hsector (by omega) (by omega)]
          simp only [hbad, hzero, if_false, Nat.add_assoc]

/-- One round of the loop of `grub_asif_read`. -/
theorem asifReadPiece_spec {img : AsifImage} (hgeom : img.Geometry) {s : AsifState}
    (hs : s.Sound img) (off len : ℕ) :
    (AsifSteady img s off → (asifReadPiece img s off len).2.Sound img)
      ∧ ∀ bs, off < img.mediaSize → 0 < len → (asifReadPiece img s off len).1 = .ok bs →
        (asifReadPiece img s off len).2.Sound img ∧ 0 < bs.length
          ∧ bs.length ≤ min len (img.mediaSize - off)
          ∧ Agrees (fun x b => asifByte img x = some b) off bs := by
  obtain ⟨hsteady, hok⟩ := asifMap_spec hgeom hs off
  simp only [asifReadPiece]
  generalize asifMap img s off = r at hsteady hok
  obtain ⟨_ | ⟨available, _ | physical⟩, s'⟩ := r
  · exact ⟨hsteady, fun bs _ _ h => by cases h⟩
  · obtain ⟨hsound, hmap⟩ := hok available none rfl
    refine ⟨fun _ => hsound, fun bs hoff hlen h => ?_⟩
    obtain rfl := Except.ok.inj h
    have hpos := hmap.pos hoff
    have hle := hmap.le
    rw [List.length_replicate]
    refine ⟨hsound, by omega, by omega, agrees_iff_getElem.mpr fun i hi => ?_⟩
    rw [List.length_replicate] at hi
    rw [List.getElem_replicate]
    exact hmap.byte i (by omega)
  · obtain ⟨hsound, hmap⟩ := hok available (some physical) rfl
    simp only
    cases hread : asifPread img.carrier s'.calls physical (min available len) "data chunk" with
    | error e => exact ⟨fun _ => hsound.calls _, fun bs _ _ h => by cases h⟩
    | ok b =>
      refine ⟨fun _ => hsound.calls _, fun bs hoff hlen h => ?_⟩
      obtain rfl := Except.ok.inj h
      have hpos := hmap.pos hoff
      have hle := hmap.le
      rw [Buf.take, length_slice]
      refine ⟨hsound.calls _, by omega, by omega, agrees_iff_getElem.mpr fun i hi => ?_⟩
      rw [length_slice] at hi
      rw [getElem_slice, Nat.zero_add, (GrubFile.pread_eq_ok hread).2]
      exact hmap.byte i (by omega)

/-- The loads of bitmap blocks of a request are steady. -/
def AsifSteadyRead (img : AsifImage) (s : AsifState) (r : ℕ × ℕ) : Prop :=
  EachPiece img.mediaSize (asifReadPiece img) (AsifSteady img) r.2 s r.1 r.2

/-- In a run of reads in which no failed load changes a cached bitmap block, every read that succeeds
returns the bytes of the disk, up to its end. -/
theorem grubAsifRead_view {carrier : GrubFile} {img : AsifImage}
    (hopen : asifOpenImage carrier = .ok img) {group bitmap : Buf} {calls : ℕ} {rs : List (ℕ × ℕ)}
    (hrs : AllMeet (fun s r => grubAsifRead img s r.1 r.2) (AsifSteadyRead img)
      (.init group bitmap calls) rs) {off len : ℕ} {bs : List UInt8}
    (h : (grubAsifRead img (after (fun s r => grubAsifRead img s r.1 r.2) (.init group bitmap calls)
      rs) off len).1 = .ok bs) :
    bs.length = min len (img.mediaSize - off)
      ∧ Agrees (fun x b => asifByte img x = some b) off bs := by
  have hgeom := asifOpenImage_geometry hopen
  have hpiece : ∀ s off len, AsifState.Sound img s → off < img.mediaSize → AsifSteady img s off →
      AsifState.Sound img (asifReadPiece img s off len).2 :=
    fun s off len hs _ hsteady => (asifReadPiece_spec hgeom hs off len).1 hsteady
  have hstep : ∀ s r, AsifState.Sound img s → AsifSteadyRead img s r →
      AsifState.Sound img (grubAsifRead img s r.1 r.2).2 :=
    fun s r hs hok => readUntil_inv hpiece hs hok
  have hs := hrs.inv hstep (AsifState.sound_init img group bitmap calls)
  have hread : ∀ s off len bs, AsifState.Sound img s → off < img.mediaSize → 0 < len →
      (asifReadPiece img s off len).1 = .ok bs → AsifState.Sound img (asifReadPiece img s off len).2
        ∧ 0 < bs.length ∧ bs.length ≤ min len (img.mediaSize - off)
        ∧ Agrees (fun x b => asifByte img x = some b) off bs :=
    fun s off len bs hs hoff hlen h => (asifReadPiece_spec hgeom hs off len).2 bs hoff hlen h
  exact readUntil_agrees hread hs (Nat.le_refl _) h

theorem asifSteady_of_empty {img : AsifImage} {s : AsifState}
    (hs : s.Sound img) (h : s.cachedBitmapChunk = ASIF_CACHE_NONE) (off : ℕ) :
    AsifSteady img s off := by
  obtain ⟨-, hkey, -⟩ := asifLoadGroup_spec hs (img.tableIndex off) (img.groupIndex off)
  unfold AsifSteady
  generalize asifLoadGroup img s (img.tableIndex off) (img.groupIndex off) = r at hkey
  obtain ⟨_ | ⟨⟩, s'⟩ := r
  · trivial
  · intro _ chunk bitmapChunk _ hne
    exact absurd (hkey.trans h) hne

/-! ### A failed load between two reads -/

/-- A carrier of eight chunks of 16896 bytes with sectors of 512. Chunk 1 is the table, chunk 2 the
bitmap, all zero. Entry 0 and entry 63 of the group are partly there, in chunk 3. Reading the second
block of the bitmap fails after the buffer was filled. -/
def asifTornCarrier : GrubFile where
  size := 8 * 16896
  byte := Buf.ofFields [(0, [0x73, 0x68, 0x64, 0x77, 0, 0, 0, 1, 0, 0, 0, 0x50]),
    (0x10, [0, 0, 0, 0, 0, 0, 0, 0x80, 0, 0, 0, 0, 0, 0, 0, 0x80]),
    (0x30, [0, 0, 0, 0, 0, 0, 0x10, 0, 0, 0, 0, 0, 0, 0, 0x10, 0]),
    (0x40, [0, 0, 0x42, 0, 0x02, 0]),
    (0x88, [0, 0, 0, 0, 0, 0, 0, 1]),
    (16896, [0xc0, 0, 0, 0, 0, 0, 0, 3]),
    (16896 + 63 * 8, [0xc0, 0, 0, 0, 0, 0, 0, 3]),
    (16896 + 2048 * 8, [0, 0, 0, 0, 0, 0, 0, 2]),
    (3 * 16896, [7])]
  fault := fun _ off =>
    if off = 2 * 16896 + 512 then some (⟨.fileReadError, "disk error"⟩, fun _ => 0x55) else none
  size_lt := by decide

/-- The image in that carrier. -/
def asifTornImage : AsifImage where
  carrier := asifTornCarrier
  mediaSize := 4096 * 512
  maximumSize := 4096 * 512
  chunkSize := 16896
  blockSize := 512
  chunksPerGroup := 2048
  groupSize := 16392
  groupsPerTable := 1
  dataPerGroup := 2048 * 16896
  dataPerTable := 2048 * 16896
  tableCount := 1
  directoryOffset := 0x80

theorem asifOpenImage_torn : asifOpenImage asifTornCarrier = .ok asifTornImage := by rfl

/-- After a failed load into the empty cache the first sector reads as zero. -/
theorem grubAsifRead_view_torn :
    [(0 : UInt8)].length = min 1 (asifTornImage.mediaSize - 0)
      ∧ Agrees (fun x b => asifByte asifTornImage x = some b) 0 [0] := by
  refine @grubAsifRead_view _ _ asifOpenImage_torn (fun _ => 0) (fun _ => 0) 3 [(63 * 16896, 1)] ⟨?_, trivial⟩ 0 1 _ (by decide)
  -- one piece, read with nothing cached
  have hfirst := asifSteady_of_empty
    (AsifState.sound_init asifTornImage (fun _ => 0) (fun _ => 0) 3) rfl (63 * 16896)
  refine ⟨hfirst, ?_⟩
  cases asifReadPiece asifTornImage (.init (fun _ => 0) (fun _ => 0) 3) (63 * 16896) 1 with
  | mk r s' => cases r <;> trivial

/-- With the first block of the bitmap in the cache the failed load of the second one changes it, and
the first sector reads as stored data. -/
theorem grubAsifRead_not_view :
    ¬ ∀ {carrier : GrubFile} {img : AsifImage}, asifOpenImage carrier = .ok img →
      ∀ (group bitmap : Buf) (calls : ℕ) (rs : List (ℕ × ℕ)) (off len : ℕ) (bs : List UInt8),
        (grubAsifRead img (after (fun s r => grubAsifRead img s r.1 r.2) (.init group bitmap calls)
          rs) off len).1 = .ok bs → Agrees (fun x b => asifByte img x = some b) off bs := by
  intro h
  have hread := h asifOpenImage_torn (fun _ => 0) (fun _ => 0) 3 [(0, 1), (63 * 16896, 1)] 0 1 [7]
    (by decide +kernel)
  have hzero : asifByte asifTornImage 0 = some 0 := by decide +kernel
  rw [hread.1] at hzero
  cases hzero

end FsRover
