import FsRover.Io.EwfTable
import FsRover.Lib.Tiling

/-!
# The tables of Expert Witness images

## Main definitions

* `FsRover.EwfTiles` : tables that follow one another from a chunk on.
* `FsRover.EwfIndexed` : the tables of an image with the places they checked.

## Main results

* `FsRover.ewfFindGroup_eq_some` : the table of a chunk is found, whatever is cached.
* `FsRover.EwfScanned.indexed` : a scanned image is indexed.
* `FsRover.EwfIndexed.location_eq_ok` : the place of a chunk is the one checked.
-/

namespace FsRover

open Guards Tiling

/-! ### Tables in a row -/

def EwfGroup.Has (g : EwfGroup) (chunk : ℕ) : Prop :=
  g.firstChunk ≤ chunk ∧ chunk < g.firstChunk + g.count

/-- Tables that follow one another from a chunk up to another, without gap or overlap. -/
def EwfTiles : ℕ → List EwfGroup → ℕ → Prop := Tiles EwfGroup.firstChunk EwfGroup.count

section Tiles

variable {groups : List EwfGroup} {g : EwfGroup} {start stop chunk : ℕ}

theorem EwfGroup.side_eq_lt : g.side chunk = .lt ↔ chunk < g.firstChunk := by
  rw [EwfGroup.side]
  split_ifs with hlt hend <;> simp [hlt]

theorem EwfGroup.side_eq_gt :
    g.side chunk = .gt ↔ g.firstChunk ≤ chunk ∧ g.firstChunk + g.count ≤ chunk := by
  rw [EwfGroup.side]
  split_ifs with hlt hend
  · simp only [false_iff]
    omega
  · simp only [true_iff]
    omega
  · simp only [false_iff]
    omega

theorem EwfGroup.side_eq_eq : g.side chunk = .eq ↔ g.Has chunk := by
  rw [EwfGroup.side, EwfGroup.Has]
  split_ifs with hlt hend
  · simp only [false_iff]
    omega
  · simp only [false_iff]
    omega
  · simp only [true_iff]
    omega

theorem ewfTiles_ordered (h : EwfTiles start groups stop) :
    Bisect.Ordered (fun i => groups[i]?.elim .lt (EwfGroup.side chunk)) groups.length := by
  have hbefore := List.pairwise_iff_getElem.mp (Tiles.pairwise h)
  refine ⟨fun i j hij hj hside => ?_, fun i j hij hj hside => ?_⟩
  · rcases Nat.eq_or_lt_of_le hij with rfl | hlt
    · exact hside
    have hi := Nat.lt_trans hlt hj
    have hgap := hbefore i j hi hj hlt
    rw [List.getElem?_eq_getElem hi] at hside
    rw [List.getElem?_eq_getElem hj]
    have hbelow := EwfGroup.side_eq_lt.mp hside
    exact EwfGroup.side_eq_lt.mpr (by omega)
  · rcases Nat.eq_or_lt_of_le hij with rfl | hlt
    · exact hside
    have hi := Nat.lt_trans hlt hj
    have hgap := hbefore i j hi hj hlt
    rw [List.getElem?_eq_getElem hj] at hside
    rw [List.getElem?_eq_getElem hi]
    have habove := EwfGroup.side_eq_gt.mp hside
    exact EwfGroup.side_eq_gt.mpr ⟨by omega, by omega⟩

/-- The table of a chunk is found, whatever is cached. -/
theorem ewfFindGroup_eq_some (h : EwfTiles start groups stop) {cached : ℕ} :
    (ewfFindGroup groups cached chunk).1 = some g ↔ g ∈ groups ∧ g.Has chunk := by
  rw [ewfFindGroup]
  cases hcached : groups[cached]?.filter fun g => g.side chunk = .eq with
  | some g' =>
    obtain ⟨hget, hside⟩ := Option.filter_eq_some_iff.mp hcached
    have hin := List.mem_of_getElem? hget
    have hhas := EwfGroup.side_eq_eq.mp (of_decide_eq_true hside)
    constructor
    · intro heq
      cases heq
      exact ⟨hin, hhas⟩
    · rintro ⟨hg, hhas'⟩
      rw [Tiles.unique h hin hg hhas hhas']
  | none =>
    have hside : ∀ i (hi : i < groups.length),
        groups[i]?.elim .lt (EwfGroup.side chunk) = .eq ↔ groups[i].Has chunk := fun i hi => by
      rw [List.getElem?_eq_getElem hi]
      exact EwfGroup.side_eq_eq
    have hfind := fun i => Bisect.find_iff (i := i) (ewfTiles_ordered h) fun i j hi hj hieq hjeq =>
      Tiles.index_eq h hi hj ((hside i hi).mp hieq) ((hside j hj).mp hjeq)
    constructor
    · cases hmid : Bisect.find (fun i => groups[i]?.elim .lt (EwfGroup.side chunk))
        groups.length with
      | none =>
        intro heq
        cases heq
      | some mid =>
        intro heq
        obtain ⟨hlt, heq'⟩ := (hfind mid).mp hmid
        have hget : groups[mid]? = some g := heq
        rw [List.getElem?_eq_getElem hlt] at hget
        cases hget
        exact ⟨List.getElem_mem hlt, (hside mid hlt).mp heq'⟩
    · rintro ⟨hg, hhas⟩
      obtain ⟨i, hi, rfl⟩ := List.getElem_of_mem hg
      rw [(hfind i).mpr ⟨hi, (hside i hi).mpr hhas⟩]
      exact List.getElem?_eq_getElem hi

end Tiles

/-! ### Scanned images -/

/-- The geometry accepted. -/
structure EwfImage.Geometry (img : EwfImage) : Prop where
  chunkSize_pos : 0 < img.chunkSize
  chunkSize_le : img.chunkSize ≤ EWF_MAX_CHUNK_SIZE
  nchunks_le : img.nchunks ≤ EWF_MAX_CHUNKS
  total_le : img.totalBytes ≤ img.nchunks * img.chunkSize

/-- What an image keeps of a place checked. -/
structure EwfPlace.Kept (img : EwfImage) (place : EwfPlace) (file : GrubFile) : Prop where
  segment : img.segments[place.segment]? = some file
  fits : place.patternFill = false → place.compressed = true → place.storedSize ≤ img.compCapacity
  stored : img.version2 = false → 0 < place.storedSize ∧ place.storedSize ≤ img.compCapacity
    ∧ place.off + place.storedSize ≤ file.size

/-- The tables of an image, with the places they checked. -/
structure EwfIndexed (img : EwfImage) (places : List EwfPlace) : Prop where
  tiles : EwfTiles 0 img.groups img.indexedChunks
  length : places.length = img.indexedChunks
  locate : ∀ g ∈ img.groups, ∀ c, img.compCapacity ≤ c → ∀ j < g.count,
    ∃ place, places[g.firstChunk + j]? = some place ∧ g.locate c j = .ok place
  kept : ∀ place ∈ places, ∃ file, place.Kept img file
  unseen : img.volumeSeen = false → img.indexedChunks = 0
  geometry : img.volumeSeen = true → img.Geometry ∧ img.indexedChunks ≤ img.nchunks

section Scan

variable {img img' : EwfImage} {places added : List EwfPlace}

theorem ewfParseVolume_spec {file : GrubFile} {off size : ℕ}
    (h : ewfParseVolume img file off size = .ok img') : img.volumeSeen = false ∧ img'.Geometry
      ∧ ∃ smart, img' = { img with
        nchunks := img'.nchunks
        chunkSize := img'.chunkSize
        sectorSize := img'.sectorSize
        totalBytes := img'.totalBytes
        smart
        volumeSeen := true } := by
  rw [ewfParseVolume] at h
  obtain ⟨hseen, h⟩ := refuseIf_bind_eq_ok_iff.mp h
  obtain ⟨-, h⟩ := refuseIf_bind_eq_ok_iff.mp h
  obtain ⟨data, -, h⟩ := bind_eq_ok_iff.mp h
  obtain ⟨-, h⟩ := refuseIf_bind_eq_ok_iff.mp h
  obtain ⟨-, h⟩ := refuseIf_bind_eq_ok_iff.mp h
  obtain ⟨hgeometry, h⟩ := refuseIf_bind_eq_ok_iff.mp h
  obtain ⟨hsize, h⟩ := refuseIf_bind_eq_ok_iff.mp h
  obtain ⟨hchunks, h⟩ := refuseIf_bind_eq_ok_iff.mp h
  cases h
  simp only [not_or, Nat.not_lt, Nat.not_le] at hgeometry hsize
  refine ⟨Bool.eq_false_iff.mpr hseen, ⟨Nat.pos_of_ne_zero hsize.1, hsize.2.1, hgeometry.2.1, ?_⟩,
    _, rfl⟩
  obtain ⟨hpos, hmax, hlt, -⟩ := hsize
  dsimp only
  have hpos := Nat.pos_of_ne_zero hpos
  generalize u32 (lostLe32 data 8 * lostLe32 data 12) = chunkSize at *
  generalize (if decide (size < EWF_VOLUME_SIZE) then lostLe32 data 16 else lostLe64 data 16)
    * lostLe32 data 12 = total at *
  have hmax' : EWF_MAX_CHUNK_SIZE < 2 ^ 27 := by decide
  have hcount := not_not.mp hchunks
  have hnone := hgeometry.1
  -- a sum past 2 ^ 64 would leave no chunk
  have hwrap : total + chunkSize - 1 < 2 ^ 64 := by
    by_contra hge
    have hsmall : u64 (total + chunkSize - 1) < chunkSize := by
      unfold u64
      omega
    rw [Nat.div_eq_of_lt hsmall] at hcount
    exact hnone hcount.symm
  rw [u64, Nat.mod_eq_of_lt hwrap] at hcount
  rw [← hcount]
  have hdiv := Nat.div_add_mod (total + chunkSize - 1) chunkSize
  have hmod := Nat.mod_lt (total + chunkSize - 1) hpos
  rw [Nat.mul_comm] at hdiv
  omega

theorem le_chunks {total chunkSize : ℕ} (hpos : 0 < chunkSize) :
    total ≤ (total / chunkSize + if total % chunkSize ≠ 0 then 1 else 0) * chunkSize := by
  have hdiv := Nat.div_add_mod total chunkSize
  have hmod := Nat.mod_lt total hpos
  rw [Nat.mul_comm] at hdiv
  rw [Nat.add_mul]
  split_ifs <;> omega

theorem ewf2ApplyMetadata_spec {m : Ewf2Metadata} (h : ewf2ApplyMetadata img m = .ok img') :
    (img.volumeSeen = true ∧ img' = img) ∨ img.volumeSeen = false ∧ img'.Geometry
      ∧ ∃ smart, img' = { img with
        nchunks := img'.nchunks
        chunkSize := img'.chunkSize
        sectorSize := img'.sectorSize
        totalBytes := img'.totalBytes
        smart
        volumeSeen := true } := by
  rw [ewf2ApplyMetadata] at h
  obtain ⟨-, h⟩ := refuseIf_bind_eq_ok_iff.mp h
  obtain ⟨hgeometry, h⟩ := refuseIf_bind_eq_ok_iff.mp h
  obtain ⟨hchunks, h⟩ := refuseIf_bind_eq_ok_iff.mp h
  obtain ⟨-, h⟩ := refuseIf_bind_eq_ok_iff.mp h
  cases hseen : img.volumeSeen with
  | true =>
    rw [hseen] at h
    cases h
    exact Or.inl ⟨rfl, rfl⟩
  | false =>
    rw [hseen] at h
    cases h
    simp only [not_or, Nat.not_lt, Nat.not_le] at hgeometry
    obtain ⟨-, hcount, -, -, -, -, -, -, -, hpos, hmax, -, -⟩ := hgeometry
    refine Or.inr ⟨rfl, ⟨Nat.pos_of_ne_zero hpos, hmax, hcount, ?_⟩, _, rfl⟩
    show m.sectors * m.sectorSize ≤ m.chunks * (m.sectorsPerChunk * m.sectorSize)
    rw [← not_not.mp hchunks]
    exact le_chunks (Nat.pos_of_ne_zero hpos)

theorem EwfIndexed.measured (h : EwfIndexed img places) (hseen : img.volumeSeen = false)
    (hgeometry : img'.Geometry) {smart : Bool} (himg : img' = { img with
      nchunks := img'.nchunks
      chunkSize := img'.chunkSize
      sectorSize := img'.sectorSize
      totalBytes := img'.totalBytes
      smart
      volumeSeen := true }) : EwfIndexed img' places := by
  have hgroups : img'.groups = img.groups := by rw [himg]
  have hindexed : img'.indexedChunks = img.indexedChunks := by rw [himg]
  have hcapacity : img'.compCapacity = img.compCapacity := by rw [himg]
  have hsegments : img'.segments = img.segments := by rw [himg]
  have hversion : img'.version2 = img.version2 := by rw [himg]
  have hseen' : img'.volumeSeen = true := by rw [himg]
  have hzero := h.unseen hseen
  refine ⟨by rw [hgroups, hindexed]; exact h.tiles, by rw [hindexed]; exact h.length,
    by rw [hgroups, hcapacity]; exact h.locate, fun place hin => ?_, fun hno => ?_,
    fun _ => ⟨hgeometry, by omega⟩⟩
  · obtain ⟨file, hkept⟩ := h.kept place hin
    exact ⟨file, by rw [hsegments]; exact hkept.segment, by rw [hcapacity]; exact hkept.fits,
      by rw [hversion, hcapacity]; exact hkept.stored⟩
  · rw [hseen'] at hno
    cases hno

theorem EwfIndexed.extend (h : EwfIndexed img places) {g : EwfGroup}
    (hadd : EwfAdded img img' g added) (hseen : img.volumeSeen = true)
    (hkept : ∀ place ∈ added, ∃ file, place.Kept img' file) :
    EwfIndexed img' (places ++ added) := by
  have himg := hadd.image
  have hgroups : img'.groups = img.groups ++ [g] := by rw [himg]
  have hindexed : img'.indexedChunks = img.indexedChunks + g.count := by rw [himg]
  have hsegments : img'.segments = img.segments := by rw [himg]
  have hversion : img'.version2 = img.version2 := by rw [himg]
  have hseen' : img'.volumeSeen = true := by rw [himg]; exact hseen
  have hgrows := hadd.capacity
  obtain ⟨hgeometry, hle⟩ := h.geometry hseen
  have hroom := hadd.count_le
  refine ⟨?_, ?_, fun g' hin c hc j hj => ?_, fun place hin => ?_, fun hno => ?_, fun _ => ?_⟩
  · rw [hgroups, hindexed]
    exact Tiles.append h.tiles hadd.first hadd.count_pos
  · rw [List.length_append, h.length, hadd.length, hindexed]
  · rw [hgroups] at hin
    rcases List.mem_append.mp hin with hin | hin
    · obtain ⟨place, hget, hlocate⟩ := h.locate g' hin c (Nat.le_trans hgrows hc) j hj
      obtain ⟨hlt, -⟩ := List.getElem?_eq_some_iff.mp hget
      exact ⟨place, by rw [List.getElem?_append_left hlt]; exact hget, hlocate⟩
    · obtain rfl := List.mem_singleton.mp hin
      have hj' : j < added.length := by rw [hadd.length]; exact hj
      refine ⟨added[j], ?_, hadd.locate c hc j hj'⟩
      rw [List.getElem?_append_right (by rw [h.length, hadd.first]; exact Nat.le_add_right _ _),
        h.length, hadd.first, Nat.add_sub_cancel_left]
      exact List.getElem?_eq_getElem hj'
  · rcases List.mem_append.mp hin with hin | hin
    · obtain ⟨file, hkept⟩ := h.kept place hin
      refine ⟨file, by rw [hsegments]; exact hkept.segment, fun hpattern hcompressed => ?_,
        fun hver => ?_⟩
      · exact Nat.le_trans (hkept.fits hpattern hcompressed) hgrows
      · obtain ⟨hpos, hfits, hinside⟩ := hkept.stored (by rw [← hversion]; exact hver)
        exact ⟨hpos, Nat.le_trans hfits hgrows, hinside⟩
    · exact hkept place hin
  · rw [hseen'] at hno
    cases hno
  · have hsame : img'.nchunks = img.nchunks ∧ img'.chunkSize = img.chunkSize
        ∧ img'.totalBytes = img.totalBytes := by
      rw [himg]
      exact ⟨rfl, rfl, rfl⟩
    obtain ⟨hnchunks, hchunk, htotal⟩ := hsame
    rw [hindexed]
    refine ⟨⟨by rw [hchunk]; exact hgeometry.chunkSize_pos,
      by rw [hchunk]; exact hgeometry.chunkSize_le,
      by rw [hnchunks]; exact hgeometry.nchunks_le, ?_⟩, by omega⟩
    rw [hnchunks, hchunk, htotal]
    exact hgeometry.total_le

/-- A scanned image is indexed. -/
theorem EwfScanned.indexed (h : EwfScanned img places) : EwfIndexed img places := by
  induction h with
  | start version2 =>
    exact ⟨rfl, rfl, (fun _ hin => by cases hin), (fun _ hin => by cases hin), fun _ => rfl,
      (fun hseen => by cases hseen)⟩
  | @segment img places _ file ih =>
    refine ⟨ih.tiles, ih.length, ih.locate, fun place hin => ?_, ih.unseen, fun hseen => ?_⟩
    · obtain ⟨file, hkept⟩ := ih.kept place hin
      obtain ⟨hlt, -⟩ := List.getElem?_eq_some_iff.mp hkept.segment
      exact ⟨file, (List.getElem?_append_left hlt).trans hkept.segment, hkept.fits, hkept.stored⟩
    · obtain ⟨hgeometry, hle⟩ := ih.geometry hseen
      exact ⟨⟨hgeometry.chunkSize_pos, hgeometry.chunkSize_le, hgeometry.nchunks_le,
        hgeometry.total_le⟩, hle⟩
  | method _ m ih =>
    refine ⟨ih.tiles, ih.length, ih.locate, fun place hin => ?_, ih.unseen, fun hseen => ?_⟩
    · obtain ⟨file, hkept⟩ := ih.kept place hin
      exact ⟨file, hkept.segment, hkept.fits, hkept.stored⟩
    · obtain ⟨hgeometry, hle⟩ := ih.geometry hseen
      exact ⟨⟨hgeometry.chunkSize_pos, hgeometry.chunkSize_le, hgeometry.nchunks_le,
        hgeometry.total_le⟩, hle⟩
  | volume _ _ hparse ih =>
    obtain ⟨hseen, hgeometry, smart, himg⟩ := ewfParseVolume_spec hparse
    exact ih.measured hseen hgeometry himg
  | metadata _ _ hparse ih =>
    rcases ewf2ApplyMetadata_spec hparse with ⟨-, rfl⟩ | ⟨hseen, hgeometry, smart, himg⟩
    · exact ih
    · exact ih.measured hseen hgeometry himg
  | @table img img' places added _ file segment off size hver hfile hparse ih =>
    have hchunk : img.chunkSize ≤ EWF_MAX_CHUNK_SIZE := by
      rw [ewfParseTable] at hparse
      obtain ⟨hseen, -⟩ := refuseIf_bind_eq_ok_iff.mp hparse
      exact (ih.geometry (by simpa using hseen)).1.chunkSize_le
    obtain ⟨hseen, g, hadd, hplaces⟩ := ewfParseTable_spec hchunk hparse
    have hsegments : img'.segments = img.segments := by rw [hadd.image]
    refine ih.extend hadd hseen fun place hin => ⟨file, ?_⟩
    obtain ⟨hsegment, hpos, hfits, hinside⟩ := hplaces place hin
    exact ⟨by rw [hsegments, hsegment]; exact hfile, fun _ _ => hfits,
      fun _ => ⟨hpos, hfits, hinside⟩⟩
  | @table2 img img' places added _ file integrity segment _ _ _ _ hver hfile hparse ih =>
    obtain ⟨hseen, g, hadd, hplaces⟩ := ewf2ParseTable_spec hparse
    have hsegments : img'.segments = img.segments := by rw [hadd.image]
    have hversion : img'.version2 = img.version2 := by rw [hadd.image]
    refine ih.extend hadd hseen fun place hin => ⟨file, ?_⟩
    obtain ⟨hsegment, hfits⟩ := hplaces place hin
    refine ⟨by rw [hsegments, hsegment]; exact hfile, hfits, fun hno => ?_⟩
    rw [hversion, hver] at hno
    cases hno

end Scan

/-! ### Places -/

section Places

variable {img : EwfImage} {places : List EwfPlace} {cached chunk : ℕ}

/-- The place of a chunk is the one checked, whatever is cached. -/
theorem EwfIndexed.location_eq_ok (h : EwfIndexed img places) {place : EwfPlace} :
    (ewfChunkLocation img cached chunk).1 = .ok place ↔ places[chunk]? = some place := by
  rw [ewfChunkLocation]
  cases hgroup : ewfFindGroup img.groups cached chunk with
  | mk found cached' =>
    cases found with
    | none =>
      refine iff_of_false (fun heq => by cases heq) fun hget => ?_
      obtain ⟨hlt, -⟩ := List.getElem?_eq_some_iff.mp hget
      rw [h.length] at hlt
      obtain ⟨g, hg, hhas⟩ := Tiles.exists_mem h.tiles (Nat.zero_le chunk) hlt
      have hsome := (@ewfFindGroup_eq_some _ g _ _ _ h.tiles cached).mpr ⟨hg, hhas⟩
      rw [hgroup] at hsome
      cases hsome
    | some g =>
      have hsome : (ewfFindGroup img.groups cached chunk).1 = some g := by rw [hgroup]
      obtain ⟨hg, hhas⟩ := (ewfFindGroup_eq_some h.tiles).mp hsome
      obtain ⟨hfirst, hlast⟩ := hhas
      obtain ⟨place', hget, hlocate⟩ := h.locate g hg _ (Nat.le_refl _) (chunk - g.firstChunk)
        (by omega)
      rw [Nat.add_sub_cancel' hfirst] at hget
      have heq : g.locate img.compCapacity (chunk - g.firstChunk) = .ok place' := hlocate
      dsimp only
      rw [heq, hget]
      exact ⟨fun hok => congrArg some (Except.ok.inj hok),
        fun hsome => congrArg Except.ok (Option.some.inj hsome)⟩

end Places

end FsRover
