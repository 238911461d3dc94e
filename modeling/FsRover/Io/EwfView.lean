import FsRover.Io.EwfIndex

/-!
# What reads of Expert Witness images give

## Main definitions

* `FsRover.ewfDecoded` : the bytes of a chunk.
* `FsRover.EwfState.Sound` : what the buffer of a chunk holds between reads.

## Main results

* `FsRover.ewfLoadChunk_sound` : the buffer stays sound, also when a chunk cannot be loaded.
* `FsRover.ewf_exact` : places are those checked, and reads give the bytes of the chunks there.
-/

namespace FsRover

open History Tiling

/-- The buffers and caches of an image that is opened. -/
def EwfState.start (chunkBuf : Buf) : EwfState := ⟨EWF_CACHE_NONE, EWF_CACHE_NONE, chunkBuf⟩

/-- `ewf_open_image` lets an image through that has all its tables. -/
structure EwfImage.Opened (img : EwfImage) : Prop where
  seen : img.volumeSeen = true
  indexed : img.indexedChunks = img.nchunks

theorem Buf.take_splice (p : Buf) (n : ℕ) (q : Buf) : (p.splice 0 n q).take n = q.take n := by
  refine List.ext_getElem (by simp [Buf.take]) fun i hi hi' => ?_
  have hlt : i < n := by simpa [Buf.take] using hi
  simp [Buf.take, Buf.splice, hlt]

theorem Buf.take_put (p : Buf) (bs : List UInt8) : (p.put 0 bs).take bs.length = bs := by
  rw [Buf.put, Buf.take_splice]
  refine List.ext_getElem (by simp [Buf.take]) fun i hi hi' => ?_
  simp [Buf.take, hi']

theorem Buf.slice_of_take {p : Buf} {bs : List UInt8} {pos n : ℕ} (h : p.take bs.length = bs)
    (hlen : pos + n ≤ bs.length) : slice p pos n = (bs.drop pos).take n := by
  have hpart : slice p pos n = ((p.take bs.length).drop pos).take n := by
    refine List.ext_getElem (by simp [Buf.take]; omega) fun i hi hi' => ?_
    simp [Buf.take]
  rw [hpart, h]

section Read

variable (inflate bunzip2 : List UInt8 → ℕ → List UInt8 × Bool)

/-- The bytes of a chunk at a place, unless what is stored there is none. -/
def ewfDecoded (img : EwfImage) (chunk : ℕ) (place : EwfPlace) : Option (List UInt8) :=
  if place.patternFill then some (ewfPattern img place.pattern)
  else img.segments[place.segment]?.bind fun file =>
    if place.compressed then
      let out := (img.decompress inflate bunzip2).1 (slice file.byte place.off place.storedSize)
        img.chunkSize
      if out.2 = false ∨ out.1.length < img.expected chunk ∨ img.chunkSize < out.1.length then none
      else some out.1
    else
      let plain := slice file.byte place.off (place.storedSize - 4)
      let checksum := file.byte.from (u64 (place.off + (place.storedSize - 4)))
      if place.checksummed = false ∨ place.storedSize < 4 ∨ plain.length < img.expected chunk
        ∨ img.chunkSize < plain.length ∨ lostLe32 checksum 0 ≠ ewfAdler32 plain then none
      else some plain

variable {inflate bunzip2}

theorem ewfPread_eq_ok {file : GrubFile} {call off len : ℕ} {b : Buf}
    (h : ewfPread file call off len = .ok b) : b = file.byte.from off := by
  rw [ewfPread] at h
  split_ifs at h
  exact (GrubFile.pread_eq_ok h).2

variable {img : EwfImage} {places : List EwfPlace} {call chunk : ℕ} {buf buf' : Buf}
  {place : EwfPlace}

theorem ewfLoadPlace_spec
    (h : ewfLoadPlace inflate bunzip2 img call buf chunk place = (.ok (), buf')) :
    ∃ bytes, ewfDecoded inflate bunzip2 img chunk place = some bytes
      ∧ img.expected chunk ≤ bytes.length ∧ buf'.take bytes.length = bytes := by
  rw [ewfLoadPlace] at h
  rw [ewfDecoded]
  by_cases hpattern : place.patternFill = true
  · rw [if_pos hpattern] at h ⊢
    cases h
    refine ⟨_, rfl, ?_, Buf.take_put _ _⟩
    rw [ewfPattern, List.length_map, List.length_range]
    exact Nat.min_le_left _ _
  rw [if_neg hpattern] at h ⊢
  cases hfile : img.segments[place.segment]? with
  | none =>
    rw [hfile] at h
    cases h
  | some file =>
    rw [hfile] at h
    dsimp only [Option.bind_some] at h ⊢
    by_cases hcompressed : place.compressed = true
    · rw [if_pos hcompressed] at h ⊢
      cases hread : ewfPread file call place.off place.storedSize with
      | error e =>
        rw [hread] at h
        cases h
      | ok stored =>
        obtain rfl := ewfPread_eq_ok hread
        rw [hread] at h
        dsimp only at h
        rw [slice_from] at h
        obtain ⟨hcheck, hbuf⟩ := Prod.mk.injEq _ _ _ _ ▸ h
        split_ifs at hcheck with hbad
        rw [if_neg hbad]
        simp only [not_or, Nat.not_lt] at hbad
        exact ⟨_, rfl, hbad.2.1, by rw [← hbuf]; exact Buf.take_put _ _⟩
    · rw [if_neg hcompressed] at h ⊢
      by_cases hshort : place.checksummed = false ∨ place.storedSize < 4
      · rw [if_pos hshort] at h
        cases h
      rw [if_neg hshort] at h
      by_cases hsize : place.storedSize - 4 < img.expected chunk
          ∨ img.chunkSize < place.storedSize - 4
      · rw [if_pos hsize] at h
        cases h
      rw [if_neg hsize] at h
      cases hread : ewfPread file call place.off (place.storedSize - 4) with
      | error e =>
        rw [hread] at h
        cases h
      | ok plain =>
        obtain rfl := ewfPread_eq_ok hread
        rw [hread] at h
        dsimp only at h
        cases hsum : ewfPread file call (u64 (place.off + (place.storedSize - 4))) 4 with
        | error e =>
          rw [hsum] at h
          cases h
        | ok checksum =>
          obtain rfl := ewfPread_eq_ok hsum
          rw [hsum] at h
          dsimp only at h
          rw [Buf.take_splice, slice_from] at h
          obtain ⟨hcheck, hbuf⟩ := Prod.mk.injEq _ _ _ _ ▸ h
          split_ifs at hcheck with hbad
          simp only [not_or, Nat.not_lt] at hshort hsize
          rw [length_slice, if_neg (by
            simp only [not_or, Nat.not_lt]
            exact ⟨hshort.1, hshort.2, hsize.1, hsize.2, hbad⟩)]
          refine ⟨_, rfl, by rw [length_slice]; exact hsize.1, ?_⟩
          rw [← hbuf, length_slice, Buf.take_splice, slice_from]

variable (inflate bunzip2)

/-- Between reads the buffer holds the bytes of the chunk that is cached. -/
def EwfState.Sound (img : EwfImage) (places : List EwfPlace) (s : EwfState) : Prop :=
  s.cachedChunk ≠ EWF_CACHE_NONE → ∃ place bytes, places[s.cachedChunk]? = some place
    ∧ ewfDecoded inflate bunzip2 img s.cachedChunk place = some bytes
    ∧ img.expected s.cachedChunk ≤ bytes.length ∧ s.chunkBuf.take bytes.length = bytes

variable {inflate bunzip2} {s : EwfState}

/-- The buffer stays sound, also when a chunk cannot be loaded. -/
theorem ewfLoadChunk_sound (h : EwfIndexed img places)
    (hs : s.Sound inflate bunzip2 img places) :
    (ewfLoadChunk inflate bunzip2 img call s chunk).2.Sound inflate bunzip2 img places
      ∧ ((ewfLoadChunk inflate bunzip2 img call s chunk).1 = .ok () →
        (ewfLoadChunk inflate bunzip2 img call s chunk).2.cachedChunk = chunk) := by
  rw [ewfLoadChunk]
  by_cases hsame : s.cachedChunk = chunk
  · rw [if_pos hsame]
    exact ⟨hs, fun _ => hsame⟩
  rw [if_neg hsame]
  cases hlocation : ewfChunkLocation img s.cachedGroup chunk with
  | mk result cachedGroup =>
    cases result with
    | error e =>
      exact ⟨fun hne => absurd rfl hne, fun hok => by cases hok⟩
    | ok place =>
      dsimp only
      have hplace := h.location_eq_ok.mp (show (ewfChunkLocation img s.cachedGroup chunk).1
        = .ok place by rw [hlocation])
      cases hload : ewfLoadPlace inflate bunzip2 img call s.chunkBuf chunk place with
      | mk loaded buf =>
        cases loaded with
        | error e =>
          exact ⟨fun hne => absurd rfl hne, fun hok => by cases hok⟩
        | ok u =>
          obtain ⟨bytes, hdecoded, hlen, htake⟩ := ewfLoadPlace_spec hload
          exact ⟨fun _ => ⟨place, bytes, hplace, hdecoded, hlen, htake⟩, fun _ => rfl⟩

theorem ewfRead_sound (h : EwfIndexed img places) (hs : s.Sound inflate bunzip2 img places)
    (off len : ℕ) :
    (ewfRead inflate bunzip2 img call s off len).2.Sound inflate bunzip2 img places := by
  rw [ewfRead]
  split_ifs with hpast
  · exact hs
  obtain ⟨hsound, -⟩ := @ewfLoadChunk_sound inflate bunzip2 img places call
    (u32 (off / img.chunkSize)) s h hs
  dsimp only
  cases hload : ewfLoadChunk inflate bunzip2 img call s (u32 (off / img.chunkSize)) with
  | mk loaded s' =>
    rw [hload] at hsound
    cases loaded with
    | error e => exact hsound
    | ok u => exact hsound

theorem ewfRead_eq_ok (h : EwfIndexed img places) (hopened : img.Opened)
    (hs : s.Sound inflate bunzip2 img places) {off len : ℕ} {bs : List UInt8}
    (hread : (ewfRead inflate bunzip2 img call s off len).1 = .ok bs) :
    ∃ place bytes, places[off / img.chunkSize]? = some place
      ∧ ewfDecoded inflate bunzip2 img (off / img.chunkSize) place = some bytes
      ∧ bs.length = min (min (img.chunkSize - off % img.chunkSize) len) (img.totalBytes - off)
      ∧ bs = (bytes.drop (off % img.chunkSize)).take bs.length := by
  obtain ⟨hgeometry, -⟩ := h.geometry hopened.seen
  rw [ewfRead] at hread
  split_ifs at hread with hpast
  simp only [not_or, Nat.not_lt] at hpast
  have hchunk : off / img.chunkSize ≤ EWF_MAX_CHUNKS := by
    refine Nat.le_trans (Nat.div_le_of_le_mul ?_) hgeometry.nchunks_le
    rw [Nat.mul_comm]
    exact Nat.le_trans hpast.1 hgeometry.total_le
  have hmax : EWF_MAX_CHUNKS < EWF_CACHE_NONE := by decide
  rw [u32_of_lt (Nat.lt_trans (Nat.lt_of_le_of_lt hchunk hmax) (by decide))] at hread
  obtain ⟨hsound, hcached⟩ := @ewfLoadChunk_sound inflate bunzip2 img places call
    (off / img.chunkSize) s h hs
  dsimp only at hread
  cases hload : ewfLoadChunk inflate bunzip2 img call s (off / img.chunkSize) with
  | mk loaded s' =>
    rw [hload] at hread hsound hcached
    cases loaded with
    | error e => cases hread
    | ok u =>
      have hcached : s'.cachedChunk = off / img.chunkSize := hcached rfl
      obtain ⟨place, bytes, hplace, hdecoded, hlen, htake⟩ := hsound (by
        rw [hcached]
        omega)
      rw [hcached] at hplace hdecoded hlen
      have hbs := Except.ok.inj hread
      have hdiv := Nat.div_add_mod off img.chunkSize
      have hmod := Nat.mod_lt off hgeometry.chunkSize_pos
      rw [Nat.mul_comm] at hdiv
      rw [EwfImage.expected] at hlen
      have hlength : bs.length
          = min (min (img.chunkSize - off % img.chunkSize) len) (img.totalBytes - off) := by
        rw [← hbs, length_slice]
      refine ⟨place, bytes, hplace, hdecoded, hlength, ?_⟩
      rw [hlength, ← hbs]
      exact Buf.slice_of_take htake (by omega)

end Read

/-- The reads of an image as requests: the number of the call, the offset and the length. -/
def ewfRequest (inflate bunzip2 : List UInt8 → ℕ → List UInt8 × Bool) (img : EwfImage)
    (s : EwfState) (r : ℕ × ℕ × ℕ) : Except GrubError (List UInt8) × EwfState :=
  ewfRead inflate bunzip2 img r.1 s r.2.1 r.2.2

/-- Tables are read as they were checked, and reads give the bytes of the chunks there, after any
reads before. -/
structure EwfImage.ReadsAs (img : EwfImage) (places : List EwfPlace) : Prop where
  tiles : EwfTiles 0 img.groups img.indexedChunks
  length : places.length = img.indexedChunks
  find : ∀ cached chunk g, (ewfFindGroup img.groups cached chunk).1 = some g ↔
    g ∈ img.groups ∧ g.Has chunk
  unique : ∀ chunk, (∃! g, g ∈ img.groups ∧ g.Has chunk) ↔ chunk < img.indexedChunks
  location : ∀ cached chunk place, (ewfChunkLocation img cached chunk).1 = .ok place ↔
    places[chunk]? = some place
  stored : img.version2 = false → ∀ place ∈ places, ∃ file,
    img.segments[place.segment]? = some file ∧ 0 < place.storedSize
    ∧ place.storedSize ≤ img.compCapacity ∧ place.off + place.storedSize ≤ file.size
  read : img.Opened → ∀ inflate bunzip2 buf requests call off len bs,
    (ewfRead inflate bunzip2 img call
      (after (ewfRequest inflate bunzip2 img) (.start buf) requests) off len).1 = .ok bs →
    ∃ place bytes, places[off / img.chunkSize]? = some place
      ∧ ewfDecoded inflate bunzip2 img (off / img.chunkSize) place = some bytes
      ∧ bs.length = min (min (img.chunkSize - off % img.chunkSize) len) (img.totalBytes - off)
      ∧ bs = (bytes.drop (off % img.chunkSize)).take bs.length

theorem ewf_exact {img : EwfImage} {places : List EwfPlace} (h : EwfScanned img places) :
    img.ReadsAs places := by
  have hindexed := h.indexed
  refine {
    tiles := hindexed.tiles
    length := hindexed.length
    find := fun _ _ _ => ewfFindGroup_eq_some hindexed.tiles
    unique := fun chunk => ⟨?_, fun hlt => ?_⟩
    location := fun _ _ _ => hindexed.location_eq_ok
    stored := fun hver place hin => ?_
    read := fun hopened inflate bunzip2 buf requests call off len bs hread => ?_ }
  · rintro ⟨g, ⟨hg, hhas⟩, -⟩
    exact Nat.lt_of_lt_of_le hhas.2 (Tiles.bounds hindexed.tiles hg).2.2
  · obtain ⟨g, hg, hhas⟩ := Tiles.exists_mem hindexed.tiles (Nat.zero_le chunk) hlt
    exact ⟨g, ⟨hg, hhas⟩, fun g' hg' => Tiles.unique hindexed.tiles hg'.1 hg hg'.2 hhas⟩
  · obtain ⟨file, hkept⟩ := hindexed.kept place hin
    exact ⟨file, hkept.segment, hkept.stored hver⟩
  · have hstart : (EwfState.start buf).Sound inflate bunzip2 img places := fun hne => absurd rfl hne
    have hsound : (after (ewfRequest inflate bunzip2 img) (EwfState.start buf) requests).Sound
        inflate bunzip2 img places :=
      @after_inv EwfState _ _ (ewfRequest inflate bunzip2 img)
        (EwfState.Sound inflate bunzip2 img places)
        (fun _ r hs => ewfRead_sound hindexed hs r.2.1 r.2.2) _ hstart requests
    exact ewfRead_eq_ok hindexed hopened hsound hread

/-- A segment with a short volume section at 0, a chunk of 128 zeros at 94 and a table at 226. -/
private def ewfSampleFile : GrubFile where
  size := 330
  byte := fun i => match i with
    | 4 | 8 | 16 | 302 => 1
    | 12 => 128
    | 90 => 132
    | 91 => 0
    | 92 => 76
    | 93 => 40
    | 222 => 1
    | 224 => 128
    | 322 => 2
    | 323 => 0
    | 324 => 40
    | 325 => 0
    | 326 => 94
    | _ => 0
  fault := fun _ _ => none
  size_lt := by decide

/-- The image with the geometry of the volume section. -/
private def ewfSampleVolume : EwfImage :=
  { EwfImage.start false with
    segments := [ewfSampleFile], nchunks := 1, chunkSize := 128, sectorSize := 128,
    totalBytes := 128, smart := true, volumeSeen := true }

private def ewfSample : EwfImage :=
  { ewfSampleVolume with
    groups := [⟨0, 1, 1, 0, 0, 226, .v1 [94]⟩], indexedChunks := 1, compCapacity := 132 }

set_option maxRecDepth 8000 in
theorem ewf_exact_sample : ewfSample.Opened
    ∧ ewfSample.ReadsAs [⟨0, 94, 132, false, true, false, 0⟩] := by
  have hvolume : EwfScanned ewfSampleVolume [] :=
    @EwfScanned.volume _ _ _ (.segment (.start false) ewfSampleFile) ewfSampleFile 0 94 rfl rfl
  exact ⟨⟨rfl, rfl⟩,
    ewf_exact (@EwfScanned.table _ _ _ _ hvolume ewfSampleFile 0 226 104 rfl rfl rfl)⟩

end FsRover
