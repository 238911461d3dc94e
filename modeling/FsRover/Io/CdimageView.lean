import FsRover.Io.Cdimage

/-!
# CD images read as their tracks

## Main definitions

* `FsRover.CdimageTrack.Added` : what the parsers promise of a track.
* `FsRover.CdimageTrack.Fits`, `FsRover.CdimageTable` : a checked track, and the finished table.
* `FsRover.cdimageOwner`, `FsRover.cdimageByte` : the track of a sector, and the bytes exposed.
* `FsRover.CdimageReads` : what reads of an image give.

## Main results

* `FsRover.grubCdimageFinish_table` : a finished table is sorted, disjoint and inside its files.
* `FsRover.cdimageFindTrack_eq` : the search finds the owner of a sector.
* `FsRover.cdimageReadRounds_spec` : reads give the bytes exposed.
* `FsRover.cdimage_exact` : all of it, for every list of tracks.
-/

namespace FsRover

open Outcome History

/-- A track as the parsers add it. -/
structure CdimageTrack.Added (t : CdimageTrack) : Prop where
  sectorSize_pos : 0 < t.sectorSize
  nsectors_lt : t.nsectors < 2 ^ 32
  dataOffset_lt : t.dataOffset + CD_FRAMESIZE < 2 ^ 32

/-- A track that the checks let pass: its sectors lie in the file, with room for the user bytes. -/
structure CdimageTrack.Fits (t : CdimageTrack) : Prop where
  end_le : t.startLsn + t.nsectors ≤ CDIMAGE_MAX_LSN
  user : t.mode ≠ .audio → t.dataOffset + CD_FRAMESIZE ≤ t.sectorSize
  stored : t.srcOffset + t.nsectors * t.sectorSize ≤ t.src.size

/-- `t` is what became of `added`: it has not moved, and has not grown. -/
structure CdimageTrack.Of (added t : CdimageTrack) : Prop where
  startLsn : t.startLsn = added.startLsn
  nsectors : t.nsectors ≤ added.nsectors
  sectorSize : t.sectorSize = added.sectorSize
  src : t.src = added.src
  srcOffset : t.srcOffset = added.srcOffset

/-- `a` ends before `b` starts. -/
structure CdimageTrack.Before (a b : CdimageTrack) : Prop where
  start_le : a.startLsn ≤ b.startLsn
  end_le : a.startLsn + a.nsectors ≤ b.startLsn

/-- A finished table. -/
structure CdimageTable (tracks : List CdimageTrack) : Prop where
  before : tracks.Pairwise CdimageTrack.Before
  fits : ∀ t ∈ tracks, t.Fits

/-- The last track in the table that begins at or before the sector, if the sector lies below its
end. -/
def cdimageOwner (tracks : List CdimageTrack) (s : ℕ) : Option CdimageTrack :=
  (tracks.filter (·.startLsn ≤ s)).getLast?.filter fun t => s < t.startLsn + t.nsectors

/-- The byte exposed at `i`. -/
def cdimageByte (tracks : List CdimageTrack) (i : ℕ) : UInt8 :=
  match cdimageOwner tracks (i / CD_FRAMESIZE) with
  | none => 0
  | some t =>
    if t.mode = .audio then 0
    else t.src.byte (t.srcOffset + (i / CD_FRAMESIZE - t.startLsn) * t.sectorSize + t.dataOffset
      + i % CD_FRAMESIZE)

/-! ### Finishing the table -/

section Finish

variable {t t' : CdimageTrack} {fmt : String}

theorem cdimagePread_eq {file : GrubFile} {call off len : ℕ} (h : file.Holds off len) :
    cdimagePread file call off len = done (file.byte.from off)
      ∨ ∃ e left, file.fault call off = some (e, left)
        ∧ cdimagePread file call off len = failed e := by
  rw [cdimagePread, inside_pos h, done_bind, GrubFile.pread, if_pos h]
  cases hfault : file.fault call off with
  | none => exact Or.inl rfl
  | some fault => exact Or.inr ⟨fault.1, fault.2, rfl, rfl⟩

/-- Refining changes the mode and the data offset only, and reads inside the first sector. -/
theorem cdimageRefineTrack_eq (hstored : t.srcOffset + t.sectorSize ≤ t.src.size)
    (hoffset : t.dataOffset + CD_FRAMESIZE < 2 ^ 32) : ∃ mode dataOffset,
      dataOffset + CD_FRAMESIZE < 2 ^ 32
      ∧ cdimageRefineTrack t = done { t with mode := mode, dataOffset := dataOffset } := by
  rw [cdimageRefineTrack]
  split_ifs with hraw
  · exact ⟨t.mode, t.dataOffset, hoffset, rfl⟩
  · have hholds : t.src.Holds t.srcOffset (CD_SYNC_SIZE + CD_HEADER_SIZE) := by
      simp only [CD_FRAMESIZE_RAW, CD_SYNC_SIZE, CD_HEADER_SIZE, GrubFile.Holds] at hraw ⊢
      omega
    rcases @cdimagePread_eq t.src 0 t.srcOffset _ hholds with hread | ⟨e, left, -, hread⟩
    · rw [hread]
      dsimp only
      rw [CdimageTrack.withHeader]
      split_ifs
      · exact ⟨t.mode, t.dataOffset, hoffset, rfl⟩
      · exact ⟨.mode1, CD_M1_DATA_OFFSET, by decide, rfl⟩
      · exact ⟨.mode2, CD_M2_DATA_OFFSET, by decide, rfl⟩
      · exact ⟨.audio, t.dataOffset, hoffset, rfl⟩
    · rw [hread]
      exact ⟨t.mode, t.dataOffset, hoffset, rfl⟩

/-- A track with the sectors that its file holds, one at least, is kept where it fits. -/
theorem cdimageUseTrack_ends (hoffset : t.dataOffset + CD_FRAMESIZE < 2 ^ 32)
    (hstored : t.srcOffset + t.nsectors * t.sectorSize ≤ t.src.size)
    (hfirst : t.srcOffset + t.sectorSize ≤ t.src.size) :
    (cdimageUseTrack fmt t).Ends fun t' => t'.Fits ∧ t.Of t' := by
  rw [cdimageUseTrack]
  by_cases hrange : CDIMAGE_MAX_LSN < t.startLsn ∨ CDIMAGE_MAX_LSN < t.nsectors
      ∨ CDIMAGE_MAX_LSN < t.endLsn
  · rw [if_pos hrange]
    trivial
  rw [if_neg hrange]
  have hend : t.startLsn + t.nsectors ≤ CDIMAGE_MAX_LSN := by
    simp only [not_or, Nat.not_lt, CdimageTrack.endLsn, CDIMAGE_MAX_LSN] at hrange ⊢
    omega
  obtain ⟨mode, dataOffset, hrefined, hrefine⟩ : ∃ mode dataOffset,
      dataOffset + CD_FRAMESIZE < 2 ^ 32
      ∧ (if t.mode = CdimageMode.audio then done t else cdimageRefineTrack t)
        = done { t with mode := mode, dataOffset := dataOffset } := by
    split_ifs with hmode
    · exact ⟨t.mode, t.dataOffset, hoffset, rfl⟩
    · exact cdimageRefineTrack_eq hfirst hoffset
  rw [hrefine, done_bind]
  dsimp only
  rw [Nat.mod_eq_of_lt hrefined]
  split_ifs with haudio
  · exact ⟨⟨hend, fun hmode => absurd rfl hmode, hstored⟩, ⟨rfl, Nat.le_refl _, rfl, rfl, rfl⟩⟩
  · exact ⟨⟨hend, fun _ => Nat.le_of_not_lt haudio, hstored⟩, ⟨rfl, Nat.le_refl _, rfl, rfl, rfl⟩⟩

/-- The sectors that the file holds, at most those declared. -/
theorem cdimage_clamped {avail : ℕ} (h : t.Added) :
    (if avail < t.nsectors then { t with nsectors := avail % 2 ^ 32 } else t)
      = { t with nsectors := min avail t.nsectors } := by
  have hlt := h.nsectors_lt
  split_ifs with hclamp
  · rw [Nat.mod_eq_of_lt (by omega), Nat.min_eq_left (by omega)]
  · rw [Nat.min_eq_right (by omega)]

theorem cdimageCheckTrack_ends (h : t.Added) :
    (cdimageCheckTrack fmt t).Ends fun kept => ∀ t' ∈ kept, t'.Fits ∧ t.Of t' := by
  rw [cdimageCheckTrack]
  by_cases hsize : t.src.size = GRUB_FILE_SIZE_UNKNOWN ∨ t.src.size ≤ t.srcOffset
  · rw [if_pos hsize]
    exact fun t' ht' => by cases ht'
  rw [if_neg hsize]
  dsimp only
  obtain ⟨avail, havail⟩ : ∃ avail, avail = (t.src.size - t.srcOffset) / t.sectorSize := ⟨_, rfl⟩
  rw [← havail]
  by_cases hzero : avail = 0
  · rw [if_pos hzero]
    exact fun t' ht' => by cases ht'
  rw [if_neg hzero]
  have hroom : avail * t.sectorSize ≤ t.src.size - t.srcOffset := by
    rw [havail]
    exact Nat.div_mul_le_self _ _
  have hone : 1 * t.sectorSize ≤ avail * t.sectorSize :=
    Nat.mul_le_mul_right _ (Nat.pos_of_ne_zero hzero)
  have hle : min avail t.nsectors * t.sectorSize ≤ avail * t.sectorSize :=
    Nat.mul_le_mul_right _ (Nat.min_le_left _ _)
  rw [cdimage_clamped h]
  refine Ends.bind (cdimageUseTrack_ends h.dataOffset_lt (by dsimp only; omega)
    (by dsimp only; omega)) fun t' ht' u hu => ?_
  cases hu
  have hof := ht'.2
  exact ⟨ht'.1, ⟨hof.startLsn, hof.nsectors.trans (Nat.min_le_right _ _), hof.sectorSize, hof.src,
    hof.srcOffset⟩⟩

theorem cdimageCheckTracks_ends {ts : List CdimageTrack} (h : ∀ t ∈ ts, t.Added) :
    (cdimageCheckTracks fmt ts).Ends fun kept =>
      ∀ t' ∈ kept, t'.Fits ∧ ∃ t ∈ ts, t.Of t' := by
  induction ts with
  | nil => exact fun t' ht' => by cases ht'
  | cons t ts ih =>
    rw [cdimageCheckTracks]
    refine Ends.bind (cdimageCheckTrack_ends (h t List.mem_cons_self)) fun kept hkept => ?_
    refine Ends.bind (ih fun t ht => h t (List.mem_cons_of_mem _ ht)) fun rest hrest => ?_
    intro t' ht'
    rcases List.mem_append.mp ht' with hin | hin
    · obtain ⟨hfits, hof⟩ := hkept t' (Option.mem_toList.mp hin)
      exact ⟨hfits, t, List.mem_cons_self, hof⟩
    · obtain ⟨hfits, added, hadded, hof⟩ := hrest t' hin
      exact ⟨hfits, added, List.mem_cons_of_mem _ hadded, hof⟩

/-- The loop over the reversed sorted part is the insertion sort. -/
theorem cdimageSortTracks_eq (ts : List CdimageTrack) : cdimageSortTracks ts
    = (ts.reverse.insertionSort fun a b => b.startLsn ≤ a.startLsn).reverse := by
  rw [cdimageSortTracks, List.insertionSort, List.foldr_reverse]

theorem mem_cdimageSortTracks {ts : List CdimageTrack} : t ∈ cdimageSortTracks ts ↔ t ∈ ts := by
  rw [cdimageSortTracks_eq, List.mem_reverse, (List.perm_insertionSort _ _).mem_iff,
    List.mem_reverse]

instance : Std.Total fun a b : CdimageTrack => b.startLsn ≤ a.startLsn :=
  ⟨fun a b => Nat.le_total b.startLsn a.startLsn⟩

instance : IsTrans CdimageTrack fun a b => b.startLsn ≤ a.startLsn :=
  ⟨fun _ _ _ hab hbc => Nat.le_trans hbc hab⟩

theorem pairwise_cdimageSortTracks (ts : List CdimageTrack) :
    (cdimageSortTracks ts).Pairwise fun a b => a.startLsn ≤ b.startLsn := by
  rw [cdimageSortTracks_eq, List.pairwise_reverse]
  exact List.pairwise_insertionSort _ _

theorem mem_cdimageTrimTracks {ts : List CdimageTrack} (h : t' ∈ cdimageTrimTracks ts) :
    ∃ t ∈ ts, ∃ n ≤ t.nsectors, t' = { t with nsectors := n } := by
  induction ts with
  | nil => cases h
  | cons t ts ih =>
    cases ts with
    | nil => exact ⟨t', h, t'.nsectors, Nat.le_refl _, rfl⟩
    | cons next ts =>
      rw [cdimageTrimTracks] at h
      rcases List.mem_cons.mp h with heq | hin
      · refine ⟨t, List.mem_cons_self, ?_⟩
        split_ifs at heq with hover
        · refine ⟨_, ?_, heq⟩
          have hend : t.endLsn ≤ t.startLsn + t.nsectors := Nat.mod_le _ _
          omega
        · exact ⟨t.nsectors, Nat.le_refl _, heq⟩
      · obtain ⟨u, hu, n, hn, heq⟩ := ih hin
        exact ⟨u, List.mem_cons_of_mem _ hu, n, hn, heq⟩

theorem CdimageTrack.Fits.endLsn_eq (h : t.Fits) : t.endLsn = t.startLsn + t.nsectors := by
  have hend := h.end_le
  simp only [CDIMAGE_MAX_LSN] at hend
  exact Nat.mod_eq_of_lt (by omega)

theorem CdimageTrack.Fits.trim (h : t.Fits) {n : ℕ} (hn : n ≤ t.nsectors) :
    CdimageTrack.Fits { t with nsectors := n } := by
  have hend := h.end_le
  have hstored := h.stored
  have hle : n * t.sectorSize ≤ t.nsectors * t.sectorSize := Nat.mul_le_mul_right _ hn
  exact ⟨by dsimp only; omega, h.user, by dsimp only; omega⟩

/-- Once sorted, tracks trimmed against the next one are disjoint. -/
theorem pairwise_cdimageTrimTracks {ts : List CdimageTrack} (hfits : ∀ t ∈ ts, t.Fits)
    (hsorted : ts.Pairwise fun a b => a.startLsn ≤ b.startLsn) :
    (cdimageTrimTracks ts).Pairwise CdimageTrack.Before := by
  induction ts with
  | nil => exact List.Pairwise.nil
  | cons t ts ih =>
    cases ts with
    | nil => exact List.pairwise_singleton _ _
    | cons next ts =>
      rw [cdimageTrimTracks]
      have htail := List.pairwise_cons.mp hsorted
      refine List.pairwise_cons.mpr
        ⟨fun u hu => ?_, ih (fun t ht => hfits t (List.mem_cons_of_mem _ ht)) htail.2⟩
      obtain ⟨v, hv, n, -, rfl⟩ := mem_cdimageTrimTracks hu
      -- whatever comes later starts at the next track or after it
      have hnext : next.startLsn ≤ v.startLsn := by
        rcases List.mem_cons.mp hv with rfl | hv
        · exact Nat.le_refl _
        · exact (List.pairwise_cons.mp htail.2).1 v hv
      have hstart := htail.1 next List.mem_cons_self
      have hend := (hfits t List.mem_cons_self).endLsn_eq
      split_ifs with hover
      · exact ⟨by dsimp only; omega, by dsimp only; omega⟩
      · exact ⟨by dsimp only; omega, by dsimp only; omega⟩

theorem cdimageEnd_le {ts : List CdimageTrack} (hfits : ∀ t ∈ ts, t.Fits) :
    cdimageEnd ts ≤ CDIMAGE_MAX_LSN := by
  rw [cdimageEnd]
  refine List.foldlRecOn (motive := fun last => last ≤ CDIMAGE_MAX_LSN) ts _ (Nat.zero_le _)
    fun last hlast t ht => ?_
  have hend := (hfits t ht).end_le
  split_ifs
  · exact hlast
  · exact hend
  · exact hlast

/-- Finishing ends, and leaves a table of what was added. -/
theorem grubCdimageFinish_table {ts : List CdimageTrack} (h : ∀ t ∈ ts, t.Added) :
    (grubCdimageFinish fmt ts).Ends fun img => CdimageTable img.tracks
      ∧ (∀ t' ∈ img.tracks, ∃ t ∈ ts, t.Of t')
      ∧ img.size ≤ CDIMAGE_MAX_LSN * CD_FRAMESIZE := by
  rw [grubCdimageFinish]
  refine Ends.bind (cdimageCheckTracks_ends h) fun kept hkept => ?_
  split_ifs with hempty
  · trivial
  dsimp only
  split_ifs with hend
  · trivial
  have hsorted := fun t (ht : t ∈ cdimageSortTracks kept) => hkept t (mem_cdimageSortTracks.mp ht)
  have hfits : ∀ t ∈ cdimageTrimTracks (cdimageSortTracks kept), t.Fits := fun t ht => by
    obtain ⟨u, hu, n, hn, rfl⟩ := mem_cdimageTrimTracks ht
    exact (hsorted u hu).1.trim hn
  refine ⟨⟨pairwise_cdimageTrimTracks (fun t ht => (hsorted t ht).1) (pairwise_cdimageSortTracks kept),
    hfits⟩, fun t ht => ?_, Nat.mul_le_mul_right _ (cdimageEnd_le hfits)⟩
  obtain ⟨u, hu, n, hn, rfl⟩ := mem_cdimageTrimTracks ht
  obtain ⟨-, added, hadded, hof⟩ := hsorted u hu
  exact ⟨added, hadded, ⟨hof.startLsn, hn.trans hof.nsectors, hof.sectorSize, hof.src,
    hof.srcOffset⟩⟩

end Finish

/-! ### The track of a sector -/

section Owner

variable {tracks : List CdimageTrack} {t : CdimageTrack} {s : ℕ}

theorem cdimageOwner_eq_some (h : CdimageTable tracks) : cdimageOwner tracks s = some t ↔
    t ∈ tracks ∧ t.startLsn ≤ s ∧ s < t.startLsn + t.nsectors := by
  rw [cdimageOwner, Option.filter_eq_some_iff, decide_eq_true_iff]
  constructor
  · rintro ⟨hlast, hlt⟩
    obtain ⟨hin, hle⟩ := List.mem_filter.mp (List.mem_of_getLast? hlast)
    exact ⟨hin, of_decide_eq_true hle, hlt⟩
  · rintro ⟨hin, hle, hlt⟩
    obtain ⟨earlier, later, rfl⟩ := List.append_of_mem hin
    -- the tracks after it start at its end or later
    have hlater : later.filter (fun t => decide (t.startLsn ≤ s)) = [] := by
      refine List.filter_eq_nil_iff.mpr fun u hu => ?_
      have hbefore := (List.pairwise_cons.mp (List.pairwise_append.mp h.before).2.1).1 u hu
      have hend := hbefore.end_le
      rw [decide_eq_true_iff]
      omega
    rw [List.filter_append, List.filter_cons_of_pos (by simpa using hle), hlater,
      List.getLast?_append]
    exact ⟨rfl, hlt⟩

theorem CdimageTrack.side_eq_lt : t.side s = .lt ↔ s < t.startLsn := by
  rw [CdimageTrack.side]
  split_ifs with hlt hend <;> simp [hlt]

theorem CdimageTrack.side_eq_gt : t.side s = .gt ↔ t.startLsn ≤ s ∧ t.endLsn ≤ s := by
  rw [CdimageTrack.side]
  split_ifs with hlt hend
  · simp [hlt]
  · simpa [hend] using hlt
  · simp [hend]

theorem CdimageTrack.side_eq_eq : t.side s = .eq ↔ t.startLsn ≤ s ∧ s < t.endLsn := by
  rw [CdimageTrack.side]
  split_ifs with hlt hend
  · simp [hlt]
  · simpa using fun _ => hend
  · simpa using ⟨Nat.le_of_not_lt hlt, Nat.lt_of_not_le hend⟩

theorem cdimageSide_eq {i : ℕ} (hi : i < tracks.length) :
    cdimageSide tracks s i = tracks[i].side s := by
  rw [cdimageSide, List.getElem?_eq_getElem hi]
  rfl

/-- The tracks of a table are in order around a sector, empty ones too. -/
theorem cdimage_ordered (h : CdimageTable tracks) :
    Bisect.Ordered (cdimageSide tracks s) tracks.length := by
  have hbefore := List.pairwise_iff_getElem.mp h.before
  refine ⟨fun i j hij hj hside => ?_, fun i j hij hj hside => ?_⟩
  · rcases Nat.eq_or_lt_of_le hij with rfl | hlt
    · exact hside
    have hi := Nat.lt_trans hlt hj
    have hle := (hbefore i j hi hj hlt).start_le
    have hside := CdimageTrack.side_eq_lt.mp ((cdimageSide_eq hi).symm.trans hside)
    exact (cdimageSide_eq hj).trans (CdimageTrack.side_eq_lt.mpr (by omega))
  · rcases Nat.eq_or_lt_of_le hij with rfl | hlt
    · exact hside
    have hi := Nat.lt_trans hlt hj
    have hgap := hbefore i j hi hj hlt
    have hstart := hgap.start_le
    have hend := hgap.end_le
    have heq := (h.fits tracks[i] (List.getElem_mem hi)).endLsn_eq
    have hside := CdimageTrack.side_eq_gt.mp ((cdimageSide_eq hj).symm.trans hside)
    exact (cdimageSide_eq hi).trans (CdimageTrack.side_eq_gt.mpr (by omega))

theorem cdimageFindTrack_eq_some (h : CdimageTable tracks) : cdimageFindTrack tracks s = some t ↔
    t ∈ tracks ∧ t.startLsn ≤ s ∧ s < t.startLsn + t.nsectors := by
  have hbefore := List.pairwise_iff_getElem.mp h.before
  have hhas : ∀ i (hi : i < tracks.length), cdimageSide tracks s i = .eq ↔
      tracks[i].startLsn ≤ s ∧ s < tracks[i].startLsn + tracks[i].nsectors := fun i hi => by
    rw [cdimageSide_eq hi, CdimageTrack.side_eq_eq, (h.fits _ (List.getElem_mem hi)).endLsn_eq]
  have hone : ∀ i j, i < tracks.length → j < tracks.length → cdimageSide tracks s i = .eq →
      cdimageSide tracks s j = .eq → i = j := by
    intro i j hi hj hieq hjeq
    have hi' := (hhas i hi).mp hieq
    have hj' := (hhas j hj).mp hjeq
    rcases Nat.lt_trichotomy i j with hlt | heq | hgt
    · have hend := (hbefore i j hi hj hlt).end_le
      omega
    · exact heq
    · have hend := (hbefore j i hj hi hgt).end_le
      omega
  rw [cdimageFindTrack, Option.bind_eq_some_iff]
  constructor
  · rintro ⟨i, hfind, hget⟩
    obtain ⟨hi, hside⟩ := Bisect.find_some hfind
    rw [List.getElem?_eq_getElem hi] at hget
    cases hget
    exact ⟨List.getElem_mem hi, (hhas i hi).mp hside⟩
  · rintro ⟨hin, hhas'⟩
    obtain ⟨i, hi, rfl⟩ := List.getElem_of_mem hin
    exact ⟨i, (Bisect.find_iff (cdimage_ordered h) hone).mpr ⟨hi, (hhas i hi).mpr hhas'⟩,
      List.getElem?_eq_getElem hi⟩

theorem cdimageFindTrack_eq (h : CdimageTable tracks) (s : ℕ) :
    cdimageFindTrack tracks s = cdimageOwner tracks s :=
  Option.ext fun _ => (cdimageFindTrack_eq_some h).trans (cdimageOwner_eq_some h).symm

end Owner

/-! ### Reading -/

section Read

variable {img : Cdimage} {call off len : ℕ}

/-- A part of a sector lies in the sector of its first byte. -/
theorem cdimage_sector_part {off i : ℕ} (hi : i < CD_FRAMESIZE - off % CD_FRAMESIZE) :
    (off + i) / CD_FRAMESIZE = off / CD_FRAMESIZE
      ∧ (off + i) % CD_FRAMESIZE = off % CD_FRAMESIZE + i := by
  dsimp only [CD_FRAMESIZE] at hi ⊢
  omega

theorem cdimage_zeros {n : ℕ} (hn : n ≤ CD_FRAMESIZE - off % CD_FRAMESIZE)
    (hzero : ∀ t, cdimageOwner img.tracks (off / CD_FRAMESIZE) = some t → t.mode = .audio) :
    List.replicate n 0 = slice (cdimageByte img.tracks) off n := by
  refine List.ext_getElem (by simp) fun i hi _ => ?_
  have hi : i < n := by simpa using hi
  rw [List.getElem_replicate, getElem_slice, cdimageByte, (cdimage_sector_part (by omega)).1]
  cases howner : cdimageOwner img.tracks (off / CD_FRAMESIZE) with
  | none => rfl
  | some t => exact (if_pos (hzero t howner)).symm

/-- A read in a file that gives the bytes exposed, or an error of the file. -/
theorem cdimage_served {t : CdimageTrack} {pos n : ℕ}
    (hin : pos + n ≤ t.src.size)
    (hbyte : ∀ i < n, cdimageByte img.tracks (off + i) = t.src.byte (pos + i)) :
    (cdimagePread t.src call (pos % 2 ^ 64) n >>= fun p => done (p.take n))
        = done (slice (cdimageByte img.tracks) off n)
      ∨ ∃ e left pos', t.src.fault call pos' = some (e, left)
        ∧ (cdimagePread t.src call (pos % 2 ^ 64) n >>= fun p => done (p.take n)) = failed e := by
  have hsize := t.src.size_lt
  rw [Nat.mod_eq_of_lt (by omega)]
  rcases @cdimagePread_eq t.src call pos n ⟨by omega, by omega⟩ with hread | ⟨e, left, hfault, hread⟩
  · rw [hread, done_bind, slice_from]
    refine Or.inl (congrArg done (List.ext_getElem (by simp) fun i hi _ => ?_))
    have hi : i < n := by simpa using hi
    rw [getElem_slice, getElem_slice, hbyte i hi]
  · rw [hread]
    exact Or.inr ⟨e, left, pos, hfault, rfl⟩

theorem cdimageReadChunk_spec (h : CdimageTable img.tracks) (hlen : 0 < len)
    (hoff : off + len ≤ 2 ^ 32 * CD_FRAMESIZE) :
    (∃ n, 0 < n ∧ n ≤ len
      ∧ cdimageReadChunk img call off len = done (slice (cdimageByte img.tracks) off n))
    ∨ ∃ t ∈ img.tracks, ∃ e left pos, t.src.fault call pos = some (e, left)
      ∧ cdimageReadChunk img call off len = failed e := by
  have hwithin : off % CD_FRAMESIZE < CD_FRAMESIZE := Nat.mod_lt _ (by decide)
  have hlsn : off / CD_FRAMESIZE < 2 ^ 32 := by
    dsimp only [CD_FRAMESIZE] at hoff ⊢
    omega
  rw [cdimageReadChunk]
  dsimp only
  rw [Nat.mod_eq_of_lt hlsn, cdimageFindTrack_eq h]
  obtain ⟨part, hpart⟩ : ∃ part, part = min (CD_FRAMESIZE - off % CD_FRAMESIZE) len := ⟨_, rfl⟩
  rw [← hpart]
  cases howner : cdimageOwner img.tracks (off / CD_FRAMESIZE) with
  | none =>
    refine Or.inl ⟨part, by omega, by omega, congrArg done (cdimage_zeros (by omega) ?_)⟩
    intro t ht
    rw [howner] at ht
    cases ht
  | some t =>
    dsimp only
    by_cases haudio : t.mode = .audio
    · rw [if_pos haudio]
      refine Or.inl ⟨part, by omega, by omega, congrArg done (cdimage_zeros (by omega) ?_)⟩
      intro u hu
      rw [howner] at hu
      cases hu
      exact haudio
    rw [if_neg haudio]
    obtain ⟨ht, hstart, hend⟩ := (cdimageOwner_eq_some h).mp howner
    have hfits := h.fits t ht
    have huser := hfits.user haudio
    have hstored := hfits.stored
    rw [hfits.endLsn_eq]
    obtain ⟨k, hk⟩ := Nat.exists_eq_add_of_le hstart
    obtain ⟨m, hm⟩ : ∃ m, t.nsectors = k + 1 + m := ⟨t.nsectors - (k + 1), by omega⟩
    have hsum : t.nsectors * t.sectorSize = k * t.sectorSize + t.sectorSize + m * t.sectorSize := by
      rw [hm, Nat.add_mul, Nat.add_mul, Nat.one_mul]
    rw [hk, Nat.add_sub_cancel_left]
    by_cases hcooked : t.sectorSize = CD_FRAMESIZE ∧ t.dataOffset = 0
    · rw [if_pos hcooked]
      obtain ⟨hsize, hzero⟩ := hcooked
      rw [hsize] at hstored
      rw [hsize, hzero]
      obtain ⟨n, hn⟩ : ∃ n, n = min len
          ((t.startLsn + t.nsectors - (t.startLsn + k)) * CD_FRAMESIZE - off % CD_FRAMESIZE) :=
        ⟨_, rfl⟩
      rw [← hn]
      have hdiv := Nat.div_add_mod off CD_FRAMESIZE
      dsimp only [CD_FRAMESIZE] at hn hdiv hk hstored hwithin ⊢
      rcases @cdimage_served img call off t (t.srcOffset + k * 2048 + 0 + off % 2048) n (by omega)
          (fun i hi => by
            have howner' : cdimageOwner img.tracks ((off + i) / CD_FRAMESIZE) = some t :=
              (cdimageOwner_eq_some h).mpr ⟨ht, by dsimp only [CD_FRAMESIZE]; omega,
                by dsimp only [CD_FRAMESIZE]; omega⟩
            rw [cdimageByte, howner']
            dsimp only
            rw [if_neg haudio, hsize, hzero]
            dsimp only [CD_FRAMESIZE]
            exact congrArg t.src.byte (by omega)) with hdone | ⟨e, left, pos, hfault, hfail⟩
      · exact Or.inl ⟨n, by omega, by omega, hdone⟩
      · exact Or.inr ⟨t, ht, e, left, pos, hfault, hfail⟩
    · rw [if_neg hcooked]
      rcases @cdimage_served img call off t
          (t.srcOffset + k * t.sectorSize + t.dataOffset + off % CD_FRAMESIZE) part (by omega)
          (fun i hi => by
            obtain ⟨hsector, hrest⟩ := @cdimage_sector_part off i (by omega)
            rw [cdimageByte, hsector, howner]
            dsimp only
            rw [if_neg haudio, hrest, hk, Nat.add_sub_cancel_left]
            exact congrArg t.src.byte (by omega)) with hdone | ⟨e, left, pos, hfault, hfail⟩
      · exact Or.inl ⟨part, by omega, by omega, hdone⟩
      · exact Or.inr ⟨t, ht, e, left, pos, hfault, hfail⟩

/-- A read gives the bytes exposed, or fails as a file does. -/
theorem cdimageReadRounds_spec (h : CdimageTable img.tracks) {rounds : ℕ} (hrounds : len < rounds)
    (hoff : off + len ≤ 2 ^ 32 * CD_FRAMESIZE) :
    cdimageReadRounds img call rounds off len = done (slice (cdimageByte img.tracks) off len)
    ∨ ∃ t ∈ img.tracks, ∃ e left pos, t.src.fault call pos = some (e, left)
      ∧ cdimageReadRounds img call rounds off len = failed e := by
  induction rounds generalizing off len with
  | zero => omega
  | succ rounds ih =>
    rw [cdimageReadRounds]
    by_cases hlen : len = 0
    · subst hlen
      exact Or.inl (if_pos rfl)
    rw [if_neg hlen]
    rcases @cdimageReadChunk_spec img call off len h (Nat.pos_of_ne_zero hlen) hoff with
      ⟨n, hpos, hle, hchunk⟩ | ⟨t, ht, e, left, pos, hfault, hchunk⟩
    · rw [hchunk, done_bind, length_slice]
      obtain ⟨rest, rfl⟩ := Nat.exists_eq_add_of_le hle
      rw [Nat.add_sub_cancel_left]
      rcases @ih (off + n) rest (by omega) (by omega) with
        hrest | ⟨t, ht, e, left, pos, hfault, hrest⟩
      · rw [hrest, done_bind, slice_append]
        exact Or.inl rfl
      · rw [hrest]
        exact Or.inr ⟨t, ht, e, left, pos, hfault, rfl⟩
    · rw [hchunk]
      exact Or.inr ⟨t, ht, e, left, pos, hfault, rfl⟩

end Read

/-- What reads of an image give: the bytes exposed, unless a read of a file fails; and the same
bytes in two parts. -/
structure CdimageReads (img : Cdimage) : Prop where
  bytes : ∀ call off len, off + len ≤ 2 ^ 32 * CD_FRAMESIZE →
    grubCdimageRead img call off len = done (slice (cdimageByte img.tracks) off len)
    ∨ ∃ t ∈ img.tracks, ∃ e left pos, t.src.fault call pos = some (e, left)
      ∧ grubCdimageRead img call off len = failed e
  split : ∀ call call₁ call₂ off m n bs xs ys, off + (m + n) ≤ 2 ^ 32 * CD_FRAMESIZE →
    grubCdimageRead img call off (m + n) = done bs → grubCdimageRead img call₁ off m = done xs →
    grubCdimageRead img call₂ (off + m) n = done ys → bs = xs ++ ys

theorem cdimageReads_of_table {img : Cdimage} (h : CdimageTable img.tracks) : CdimageReads img := by
  have hbytes := fun call off len (hoff : off + len ≤ 2 ^ 32 * CD_FRAMESIZE) =>
    @cdimageReadRounds_spec img call off len h (len + 1) (Nat.lt_succ_self len) hoff
  have hdone : ∀ call off len bs, off + len ≤ 2 ^ 32 * CD_FRAMESIZE →
      grubCdimageRead img call off len = done bs → bs = slice (cdimageByte img.tracks) off len := by
    intro call off len bs hoff hread
    rcases hbytes call off len hoff with heq | ⟨t, -, e, left, pos, -, heq⟩
    · cases heq.symm.trans hread
      rfl
    · cases heq.symm.trans hread
  refine ⟨hbytes, fun call call₁ call₂ off m n bs xs ys hoff hbs hxs hys => ?_⟩
  rw [hdone _ _ _ _ hoff hbs, hdone _ _ _ _ (by omega) hxs, hdone _ _ _ _ (by omega) hys,
    slice_append]

/-- A CD image reads as its tracks. -/
theorem cdimage_exact (fmt : String) (ts : List CdimageTrack) (h : ∀ t ∈ ts, t.Added) :
    (grubCdimageFinish fmt ts).Ends fun img =>
      (∀ t' ∈ img.tracks, ∃ t ∈ ts, t.Of t')
      ∧ img.tracks.Pairwise CdimageTrack.Before
      ∧ (∀ s, cdimageFindTrack img.tracks s = cdimageOwner img.tracks s)
      ∧ img.size ≤ 2 ^ 32 * CD_FRAMESIZE
      ∧ CdimageReads img := by
  refine Ends.mono (grubCdimageFinish_table h) fun img himg => ?_
  obtain ⟨htable, hof, hsize⟩ := himg
  refine ⟨hof, htable.before, cdimageFindTrack_eq htable, hsize.trans ?_, cdimageReads_of_table htable⟩
  exact Nat.mul_le_mul_right _ (by decide)

/-- A cooked track over the end of a raw one, with a file each. -/
private def cdimageSample : List CdimageTrack :=
  [⟨2, 3, 2048, 0, .mode1, ⟨3 * 2048, fun i => UInt8.ofNat i, fun _ _ => none, by decide⟩, 0⟩,
    ⟨0, 9, 2352, 16, .mode1, ⟨9000, fun i => UInt8.ofNat (i / 2352), fun _ _ => none, by decide⟩, 0⟩]

theorem cdimage_exact_sample : (grubCdimageFinish "cue" cdimageSample).Ends fun img =>
    (∀ t' ∈ img.tracks, ∃ t ∈ cdimageSample, t.Of t')
    ∧ img.tracks.Pairwise CdimageTrack.Before
    ∧ (∀ s, cdimageFindTrack img.tracks s = cdimageOwner img.tracks s)
    ∧ img.size ≤ 2 ^ 32 * CD_FRAMESIZE
    ∧ CdimageReads img :=
  cdimage_exact "cue" cdimageSample fun t ht => by
    simp only [cdimageSample, List.mem_cons, List.not_mem_nil, or_false] at ht
    rcases ht with rfl | rfl
    · exact ⟨by decide, by decide, by decide⟩
    · exact ⟨by decide, by decide, by decide⟩

end FsRover
