import FsRover.Fs.LittlefsLog

/-!
# What a log of littlefs depends on

The scan looks at the bytes of the block alone, and what it publishes depends on the bytes before
the end of the last commit that it accepts.

## Main definitions

* `FsRover.LittlefsHookLocal` : a comparison hook that looks at the payload alone.

## Main results

* `FsRover.littlefsMdirScan_congr` : the scan reads within the block.
* `FsRover.LittlefsPublished.congr` : what is published reads within the accepted commits.
* `FsRover.littlefsLog_both_ways` : the walk back finds what the replay of the log has.
-/

namespace FsRover

/-! ### Bytes below a bound -/

section Below

variable {p q : Buf} {n : ℕ} (h : ∀ i < n, p i = q i)
include h

theorem lostBe32_below {i : ℕ} (hi : i + 4 ≤ n) : lostBe32 p i = lostBe32 q i := by
  simp only [lostBe32, lostBe16, byteAt]
  rw [h i (by omega), h (i + 1) (by omega), h (i + 2) (by omega), h (i + 2 + 1) (by omega)]

theorem lostLe32_below {i : ℕ} (hi : i + 4 ≤ n) : lostLe32 p i = lostLe32 q i := by
  simp only [lostLe32, lostLe16, byteAt]
  rw [h i (by omega), h (i + 1) (by omega), h (i + 2) (by omega), h (i + 2 + 1) (by omega)]

theorem littlefsCrc_below {crc : UInt32} {off size : ℕ} (hend : off + size ≤ n) :
    littlefsCrc crc p off size = littlefsCrc crc q off size := by
  induction size generalizing crc off with
  | zero => rfl
  | succ size ih =>
    simp only [littlefsCrc]
    rw [h off (by omega), ih (by omega)]

/-! ### The accepted commits -/

theorem LittlefsLog.congr {log : List (ℕ × ℕ)} {off ptag : ℕ} (hlog : LittlefsLog p log off ptag)
    (hend : off + littlefsTagDsize ptag ≤ n) : LittlefsLog q log off ptag := by
  induction hlog with
  | nil => exact .nil
  | @cons log off ptag tag hlog htag hvalid ih =>
    have hpos := four_le_littlefsTagDsize (littlefsNext tag)
    rw [lostBe32_below h (by omega)] at htag
    exact .cons (ih (by omega)) htag hvalid

theorem littlefsTail_congr {log : List (ℕ × ℕ)} {off ptag : ℕ} (hlog : LittlefsLog p log off ptag)
    (hwhole : LittlefsWhole log) (hend : off + littlefsTagDsize ptag ≤ n) :
    littlefsTail p log = littlefsTail q log := by
  induction hlog with
  | nil => rfl
  | @cons log off ptag tag hlog htag hvalid ih =>
    rw [littlefsTagDsize_congr (littlefsNext_mod tag)] at hend
    have hpos := four_le_littlefsTagDsize tag
    obtain ⟨hlong, hwhole⟩ := List.forall_mem_cons.mp hwhole
    rw [littlefsTail, littlefsTail]
    by_cases htail : littlefsTagType1 tag = LITTLEFS_TYPE_TAIL
    · have htwelve : 12 ≤ littlefsTagDsize tag := hlong htail
      rw [if_pos htail, if_pos htail, lostLe32_below h (by omega), lostLe32_below h (by omega)]
    · rw [if_neg htail, if_neg htail, ih hwhole (by omega)]

/-- What is published depends on the bytes of the accepted commits alone. -/
theorem LittlefsPublished.congr {blockSize : ℕ} {mdir : LittlefsMdir} {log : List (ℕ × ℕ)}
    (hpublished : LittlefsPublished blockSize p mdir log) (hend : mdir.off ≤ n) :
    LittlefsPublished blockSize q mdir log := by
  obtain ⟨⟨off, hlog, hoff⟩, hne, hwhole, hle, hcount, htail⟩ := hpublished
  rw [hoff] at hend
  exact ⟨⟨off, hlog.congr h hend, hoff⟩, hne, hwhole, hle, hcount,
    htail.trans (littlefsTail_congr h hlog hwhole hend)⟩

end Below

theorem LittlefsLog.ptag_eq {blk : Buf} {log : List (ℕ × ℕ)} {r : ℕ × ℕ} {off ptag : ℕ}
    (h : LittlefsLog blk (r :: log) off ptag) : ptag = littlefsNext r.2 := by
  cases h
  rfl

/-- Where the accepted commits end, what is published is settled. -/
theorem LittlefsPublished.unique {blockSize : ℕ} {blk : Buf} {mdir mdir' : LittlefsMdir}
    {log log' : List (ℕ × ℕ)} (h : LittlefsPublished blockSize blk mdir log)
    (h' : LittlefsPublished blockSize blk mdir' log') (hoff : mdir.off = mdir'.off) :
    log = log' ∧ mdir.etag = mdir'.etag ∧ mdir.count = mdir'.count
      ∧ mdir.tail = mdir'.tail ∧ mdir.split = mdir'.split := by
  obtain ⟨off, hlog, hend⟩ := h.tags
  obtain ⟨off', hlog', hend'⟩ := h'.tags
  have hsame : log = log' := by
    have htags := hlog.tags_eq
    rw [← hend, hoff, hend', hlog'.tags_eq] at htags
    exact (List.reverse_inj.mp htags).symm
  subst hsame
  have hetag : mdir.etag = mdir'.etag := by
    obtain ⟨r, log, rfl⟩ := List.exists_cons_of_ne_nil h.ne_nil
    rw [hlog.ptag_eq, hlog'.ptag_eq]
  have htail := h.tail_eq.trans h'.tail_eq.symm
  exact ⟨rfl, hetag, h.count_eq.trans h'.count_eq.symm, congrArg Prod.fst htail,
    congrArg Prod.snd htail⟩

/-! ### The scan -/

/-- A comparison hook that looks at the payload of a tag alone. -/
def LittlefsHookLocal (hook : ℕ → Buf → LittlefsCmp) : Prop :=
  ∀ (tag : ℕ) (p q : Buf), (∀ i < littlefsTagDsize tag - 4, p i = q i) → hook tag p = hook tag q

/-- The file system with another content of the block `n`. -/
def LittlefsData.withBlock (data : LittlefsData) (n : ℕ) (blk : Buf) : LittlefsData :=
  { data with block := Function.update data.block n (.ok blk) }

theorem LittlefsData.withBlock_block (data : LittlefsData) (n : ℕ) (blk : Buf) :
    (data.withBlock n blk).block n = .ok blk := Function.update_self n _ _

section Scan

variable {p q : Buf} {blockSize fmask ftag : ℕ} {cb : Option (ℕ → Buf → LittlefsCmp)}
  (h : ∀ i < blockSize, p i = q i)
include h

theorem littlefsScanTag_congr {tag : ℕ} {s : LittlefsScan}
    (hend : s.off + littlefsTagDsize tag ≤ blockSize) :
    littlefsScanTag p tag s = littlefsScanTag q tag s := by
  rw [littlefsScanTag, littlefsScanTag]
  by_cases hshort : littlefsTagDsize tag < 12
  · rw [if_pos hshort, if_pos hshort]
  · rw [if_neg hshort, if_neg hshort, lostLe32_below h (by omega), lostLe32_below h (by omega)]

theorem littlefsScanStep_congr (hcb : ∀ hook ∈ cb, LittlefsHookLocal hook) {s : LittlefsScan} :
    littlefsScanStep blockSize p fmask ftag cb s
      = littlefsScanStep blockSize q fmask ftag cb s := by
  rw [littlefsScanStep, littlefsScanStep]
  generalize s.off + littlefsTagDsize s.ptag = off
  simp only
  by_cases hend : blockSize < off + 4
  · rw [if_pos (.inl hend), if_pos (.inl hend)]
  rw [← lostBe32_below h (i := off) (by omega)]
  generalize lostBe32 p off ^^^ s.ptag = tag
  by_cases hstop : blockSize < off + 4 ∨ littlefsTagIsvalid tag = false
    ∨ blockSize - off < littlefsTagDsize tag
  · rw [if_pos hstop, if_pos hstop]
  rw [if_neg hstop, if_neg hstop, littlefsCrc_below h (by omega)]
  rw [not_or, not_or] at hstop
  have hpos := four_le_littlefsTagDsize tag
  have hfit : off + littlefsTagDsize tag ≤ blockSize := by omega
  by_cases hccrc : littlefsTagType2 tag = LITTLEFS_TYPE_CCRC
  · rw [if_pos hccrc, if_pos hccrc]
    by_cases hshort : littlefsTagDsize tag < 8
    · rw [if_pos (.inl hshort), if_pos (.inl hshort)]
    · rw [lostLe32_below h (by omega)]
  rw [if_neg hccrc, if_neg hccrc, littlefsCrc_below h (by omega), littlefsScanTag_congr h hfit]
  cases cb with
  | none => rfl
  | some hook =>
    have hsame : hook tag (p.from (off + 4)) = hook tag (q.from (off + 4)) := by
      refine hcb hook rfl tag _ _ fun i hi => h _ ?_
      omega
    simp only [hsame]

theorem littlefsScanLoop_congr (hcb : ∀ hook ∈ cb, LittlefsHookLocal hook) (fuel : ℕ)
    {s : LittlefsScan} : littlefsScanLoop blockSize p fmask ftag cb fuel s
      = littlefsScanLoop blockSize q fmask ftag cb fuel s := by
  induction fuel generalizing s with
  | zero => rfl
  | succ fuel ih =>
    rw [littlefsScanLoop, littlefsScanLoop, littlefsScanStep_congr h hcb]
    cases littlefsScanStep blockSize q fmask ftag cb s with
    | none => rfl
    | some s => exact ih

end Scan

section Block

variable {data : LittlefsData} {mdir : LittlefsMdir} {blk blk' : Buf}
  (hblk : data.block mdir.pair.1 = .ok blk)
include hblk

theorem littlefsMread_cases (off size : ℕ) :
    (∃ e, littlefsMread data mdir.pair.1 off size = .error e
      ∧ littlefsMread (data.withBlock mdir.pair.1 blk') mdir.pair.1 off size = .error e)
    ∨ (off + size ≤ data.blockSize ∧ littlefsMread data mdir.pair.1 off size = .ok (blk.from off)
      ∧ littlefsMread (data.withBlock mdir.pair.1 blk') mdir.pair.1 off size
        = .ok (blk'.from off)) := by
  rw [littlefsMread, littlefsMread, hblk, data.withBlock_block]
  show (∃ e, _ = _ ∧ (if data.blockCount ≤ mdir.pair.1 then _ else _) = _)
    ∨ (_ ∧ _ ∧ (if data.blockCount ≤ mdir.pair.1 then _ else _) = _)
  by_cases hcount : data.blockCount ≤ mdir.pair.1
  · rw [if_pos hcount, if_pos hcount]
    exact .inl ⟨_, rfl, rfl⟩
  rw [if_neg hcount, if_neg hcount]
  by_cases hout : data.blockSize < off ∨ data.blockSize - off < size
  · exact .inl ⟨_, if_pos hout, if_pos hout⟩
  · exact .inr ⟨by omega, if_neg hout, if_neg hout⟩

/-- The scan reads within the block. -/
theorem littlefsMdirScan_congr {fmask ftag besttag : ℕ} {cb : Option (ℕ → Buf → LittlefsCmp)}
    (h : ∀ i < data.blockSize, blk i = blk' i) (hcb : ∀ hook ∈ cb, LittlefsHookLocal hook) :
    littlefsMdirScan (data.withBlock mdir.pair.1 blk') mdir fmask ftag cb besttag
      = littlefsMdirScan data mdir fmask ftag cb besttag := by
  rw [littlefsMdirScan, littlefsMdirScan]
  rcases @littlefsMread_cases _ _ _ blk' hblk 0 4 with ⟨e, hread, hread'⟩ | ⟨hsize, hread, hread'⟩
  · rw [hread, hread']
  · have hinit : LittlefsScan.init (blk.from 0) mdir besttag
        = LittlefsScan.init (blk'.from 0) mdir besttag := by
      rw [LittlefsScan.init, LittlefsScan.init]
      rw [littlefsCrc_below (n := data.blockSize) (q := blk'.from 0) (fun i hi => ?_) hsize]
      rw [Buf.from_apply, Buf.from_apply, Nat.zero_add, h i hi]
    have hloop := @littlefsScanLoop_congr (blk.from 0) (blk'.from 0) _ fmask ftag _ (fun i hi => by
      rw [Buf.from_apply, Buf.from_apply, Nat.zero_add, h i hi]) hcb data.blockSize (.init
      (blk.from 0) mdir besttag)
    rw [hread, hread']
    simp only
    rw [hloop, hinit]
    rfl

theorem littlefsSliceLoop_congr {gmask gtag goff gsize n fuel off ntag gdiff : ℕ}
    (h : ∀ i < n, blk i = blk' i) (hoff : off ≤ n) :
    littlefsSliceLoop (data.withBlock mdir.pair.1 blk') mdir gmask gtag goff gsize fuel off
      ntag gdiff
      = littlefsSliceLoop data mdir gmask gtag goff gsize fuel off ntag gdiff := by
  induction fuel generalizing off ntag gdiff with
  | zero => rfl
  | succ fuel ih =>
    rw [littlefsSliceLoop, littlefsSliceLoop]
    by_cases hend : off < 4 + littlefsTagDsize ntag
    · rw [if_pos hend, if_pos hend]
    rw [if_neg hend, if_neg hend]
    have hpos := four_le_littlefsTagDsize ntag
    simp only
    rcases @littlefsMread_cases _ _ _ blk' hblk (off - littlefsTagDsize ntag) 4 with
      ⟨e, hread, hread'⟩ | ⟨-, hread, hread'⟩
    · rw [hread, hread']
    rw [hread, hread']
    have hraw : lostBe32 (blk'.from (off - littlefsTagDsize ntag)) 0
        = lostBe32 (blk.from (off - littlefsTagDsize ntag)) 0 := by
      refine (lostBe32_below (n := 4) (fun i hi => ?_) (Nat.le_refl _)).symm
      exact h _ (by omega)
    simp only [hraw]
    refine ite_congr rfl (fun _ => rfl) fun _ => ite_congr rfl (fun _ => ?_) fun _ => ih (by omega)
    refine ite_congr rfl (fun _ => rfl) fun hkept => ite_congr rfl (fun _ => rfl) fun _ => ?_
    -- the payload of a tag that is not deleted ends where the walk came from
    have hsize : littlefsTagDsize ntag = 4 + littlefsTagSize ntag := by
      rw [littlefsTagDsize, if_neg hkept, Nat.add_zero]
    rcases @littlefsMread_cases _ _ _ blk' hblk (off - littlefsTagDsize ntag + 4 + goff) (min
      (littlefsTagSize ntag - goff) gsize) with ⟨e, hread, hread'⟩ | ⟨-, hread, hread'⟩
    · rw [hread, hread']
    rw [hread, hread']
    have hmap : (List.range (min (littlefsTagSize ntag - goff) gsize)).map
          (blk'.from (off - littlefsTagDsize ntag + 4 + goff))
        = (List.range (min (littlefsTagSize ntag - goff) gsize)).map
          (blk.from (off - littlefsTagDsize ntag + 4 + goff)) := by
      refine List.map_congr_left fun i hi => (h _ ?_).symm
      rw [List.mem_range] at hi
      omega
    simp only [hmap]

/-- The walk back over the accepted commits finds what the replay leaves in an entry. -/
theorem littlefsDirGetslice_eq {log : List (ℕ × ℕ)} {es : List LittlefsEntry} {goff gsize id : ℕ}
    (hpair : mdir.pair.1 < data.blockCount)
    (hpublished : LittlefsPublished data.blockSize blk mdir log)
    (hmove : littlefsMoveHere data mdir = false) (hes : littlefsReplay log.reverse = some es)
    (hreach : littlefsReach log ≤ 0x3ff) (hid : id < es.length) (slot : LittlefsSlot) :
    littlefsDirGetslice data mdir (littlefsSlotMask slot)
      (littlefsMktag (littlefsSlotType slot) id 0)
      goff gsize = littlefsFound blk goff gsize id (es[id] slot) := by
  obtain ⟨off, hlog, hoff⟩ := hpublished.tags
  have hle := (littlefsReplay_length hes).1
  have hshift : littlefsShift id id = 0 := by
    rw [littlefsShift]
    omega
  have hwalk := @littlefsSliceLoop_eq _ _ _ goff gsize hpair hblk slot.key id (by omega) _ _ _ hlog
    (hoff ▸ hpublished.off_le) _ hes 0 id hid (by omega) mdir.etag mdir.off rfl (fun _ _ => rfl)
    (Nat.le_of_eq hoff.symm)
  have hslot : EditLog.lookBack (log.flatMap (littlefsEdits slot)) id = es[id] slot := by
    rw [EditLog.lookBack_eq (littlefsReplay_slot hes slot), List.getElem?_map,
      List.getElem?_eq_getElem hid]
    rfl
  rw [← hoff, hshift, slot.key_mask, slot.key_type, slot.key_edits, hslot] at hwalk
  simp only [littlefsDirGetslice, hmove, Bool.false_and, Bool.false_eq_true, false_and, if_false]
  exact hwalk

theorem littlefsDirGetslice_congr {gmask gtag goff gsize : ℕ} (h : ∀ i < mdir.off, blk i = blk' i) :
    littlefsDirGetslice (data.withBlock mdir.pair.1 blk') mdir gmask gtag goff gsize
      = littlefsDirGetslice data mdir gmask gtag goff gsize :=
  ite_congr rfl (fun _ => rfl) fun _ => littlefsSliceLoop_congr hblk h (Nat.le_refl _)

theorem littlefsMdirScan_readable {fmask ftag besttag : ℕ} {cb : Option (ℕ → Buf → LittlefsCmp)}
    (hoff : mdir.off = 0) (haccept : (littlefsMdirScan data mdir fmask ftag cb besttag).1.off ≠ 0) :
    4 ≤ data.blockSize ∧ mdir.pair.1 < data.blockCount := by
  rw [littlefsMdirScan, littlefsMread, hblk] at haccept
  by_cases hcount : data.blockCount ≤ mdir.pair.1
  · rw [if_pos hcount] at haccept
    exact absurd hoff haccept
  rw [if_neg hcount] at haccept
  by_cases hout : data.blockSize < 0 ∨ data.blockSize - 0 < 4
  · simp only [if_pos hout] at haccept
    exact absurd hoff haccept
  · exact ⟨by omega, Nat.not_le.mp hcount⟩

end Block

/-- The block with these bytes in front, alone in a file system. -/
def littlefsOneBlock (bytes : List UInt8) : LittlefsData where
  blockSize := 128
  blockCount := 1
  gtag := 0
  gpair := (0, 0)
  block _ := .ok (Buf.ofFields [(0, bytes)])

/-- A pair of which nothing is read yet. -/
def littlefsFreshMdir : LittlefsMdir where
  pair := (0, 0)
  rev := 1
  off := 0
  etag := 0
  tail := (LITTLEFS_BLOCK_NULL, LITTLEFS_BLOCK_NULL)
  count := 0
  split := false

/-- One entry: its creation, its name, its two bytes of data and the checksum. -/
def littlefsOneEntry : List UInt8 :=
  [0x01, 0x00, 0x00, 0x00, 0xbf, 0xef, 0xff, 0xff, 0x40, 0x00, 0x00, 0x01, 0x61, 0x20, 0x00, 0x00,
    0x03, 0x68, 0x69, 0x70, 0x1f, 0xfc, 0x06, 0x36, 0x07, 0x6b, 0xb3]

/-- The deletion of an entry that is not there, and the checksum. -/
def littlefsNoEntry : List UInt8 :=
  [0x01, 0x00, 0x00, 0x00, 0xb0, 0x0f, 0xff, 0xff, 0x1f, 0xff, 0xfc, 0x04, 0x7d, 0xa6, 0x17, 0x18]

/-- Forwards and backwards a log of edits is read the same: where the scan accepts commits whose
tags are a script of edits, the entries are as many as it says, each slot of an entry is found by
the walk back as the replay leaves it, what lies behind the last accepted commit has no effect, and
the scan looks at nothing outside the block. -/
theorem littlefsLog_both_ways {data : LittlefsData} {mdir mdir' : LittlefsMdir}
    {fmask ftag besttag : ℕ} {cb : Option (ℕ → Buf → LittlefsCmp)} {blk : Buf}
    {es : List LittlefsEntry} (hblk : data.block mdir.pair.1 = .ok blk) (hoff : mdir.off = 0)
    (hscan : (littlefsMdirScan data mdir fmask ftag cb besttag).1 = mdir') (haccept : mdir'.off ≠ 0)
    (hes : littlefsReplay (littlefsAccepted blk mdir'.off) = some es)
    (hreach : littlefsReach (littlefsAccepted blk mdir'.off).reverse ≤ 0x3ff)
    (hmove : littlefsMoveHere data mdir' = false) :
    mdir'.count = es.length
      ∧ (mdir'.tail, mdir'.split) = littlefsTail blk (littlefsAccepted blk mdir'.off).reverse
      ∧ (∀ id (hid : id < es.length) (slot : LittlefsSlot) (goff gsize : ℕ),
        littlefsDirGetslice data mdir' (littlefsSlotMask slot)
          (littlefsMktag (littlefsSlotType slot) id 0) goff gsize
          = littlefsFound blk goff gsize id (es[id] slot))
      ∧ (∀ blk', (∀ i < mdir'.off, blk i = blk' i) →
        littlefsAccepted blk' mdir'.off = littlefsAccepted blk mdir'.off
        ∧ (∀ gmask gtag goff gsize,
          littlefsDirGetslice (data.withBlock mdir.pair.1 blk') mdir' gmask gtag goff gsize
            = littlefsDirGetslice data mdir' gmask gtag goff gsize)
        ∧ ∀ mdir'',
          (littlefsMdirScan (data.withBlock mdir.pair.1 blk') mdir fmask ftag cb besttag).1
            = mdir'' →
          mdir''.off = mdir'.off → mdir''.etag = mdir'.etag ∧ mdir''.count = mdir'.count
            ∧ mdir''.tail = mdir'.tail ∧ mdir''.split = mdir'.split)
      ∧ mdir'.off ≤ data.blockSize
      ∧ ((∀ hook ∈ cb, LittlefsHookLocal hook) → ∀ blk', (∀ i < data.blockSize, blk i = blk' i) →
        littlefsMdirScan (data.withBlock mdir.pair.1 blk') mdir fmask ftag cb besttag
          = littlefsMdirScan data mdir fmask ftag cb besttag) := by
  obtain ⟨hsize, hpair⟩ := littlefsMdirScan_readable hblk hoff (hscan ▸ haccept)
  -- the scan has published a log, which is that of the accepted tags
  have hpublishedOf : ∀ {d : LittlefsData} {m : LittlefsMdir} {b : Buf}, 4 ≤ d.blockSize →
      mdir.pair.1 < d.blockCount → d.block mdir.pair.1 = .ok b →
      (littlefsMdirScan d mdir fmask ftag cb besttag).1 = m → m.off ≠ 0 →
      m.pair = mdir.pair ∧ ∃ log, LittlefsPublished d.blockSize b m log := by
    intro d m b hsize hpair hb hm hne
    obtain ⟨hsame, hsame' | hpublished⟩ := @littlefsMdirScan_spec _ _ fmask ftag cb besttag _
      hsize hpair hb
    · rw [← hm, hsame'] at hne
      exact absurd hoff hne
    · rw [hm] at hsame hpublished
      exact ⟨hsame, hpublished⟩
  obtain ⟨hsame, log, hpublished⟩ := hpublishedOf hsize hpair hblk hscan haccept
  have htags : littlefsAccepted blk mdir'.off = log.reverse := by
    obtain ⟨off, hlog, hend⟩ := hpublished.tags
    rw [hend, hlog.tags_eq]
  rw [htags] at hes hreach
  rw [List.reverse_reverse] at hreach
  have hblk' : data.block mdir'.pair.1 = .ok blk := by rw [hsame, hblk]
  refine ⟨?_, ?_, fun id hid slot goff gsize => ?_, fun blk' h => ⟨?_, fun _ _ _ _ => ?_, ?_⟩,
    hpublished.off_le, fun hcb blk' h => littlefsMdirScan_congr hblk h hcb⟩
  · rw [hpublished.count_eq, (littlefsReplay_length hes).2]
  · rw [htags, List.reverse_reverse, hpublished.tail_eq]
  · exact littlefsDirGetslice_eq hblk' (hsame ▸ hpair) hpublished hmove hes hreach hid slot
  · obtain ⟨off, hlog, hend⟩ := (hpublished.congr h (Nat.le_refl _)).tags
    rw [htags, hend, hlog.tags_eq]
  · rw [← hsame]
    exact littlefsDirGetslice_congr hblk' h
  · intro mdir'' hscan' hend
    obtain ⟨-, log', hpublished'⟩ := hpublishedOf (d := data.withBlock mdir.pair.1 blk') hsize hpair
      (data.withBlock_block _ _) hscan' (hend ▸ haccept)
    exact (hpublished'.unique (hpublished.congr h (Nat.le_refl _)) hend).2

theorem littlefsOneEntry_script :
    (littlefsReplay (littlefsAccepted (.ofFields [(0, littlefsOneEntry)])
      (littlefsMdirScan (littlefsOneBlock littlefsOneEntry) littlefsFreshMdir 0 0 none 0).1.off)).isSome
      = true := by
  decide +kernel

/-- The log of one entry is read both ways. -/
theorem littlefsLog_both_ways_one :
    (littlefsMdirScan (littlefsOneBlock littlefsOneEntry) littlefsFreshMdir 0 0 none
      0).1.count = 1 := by
  have hboth := @littlefsLog_both_ways (littlefsOneBlock littlefsOneEntry) littlefsFreshMdir _ 0 0 0
    none (.ofFields [(0, littlefsOneEntry)]) _ rfl rfl rfl (by decide +kernel)
    (Option.some_get littlefsOneEntry_script).symm (by decide +kernel) (by decide +kernel)
  exact hboth.1.trans (by decide +kernel)

/-- The scan accepts a log that deletes an entry before there is one, which is no script of edits,
and counts 65535 entries. -/
theorem littlefsLog_wrapped_count :
    littlefsAccepted (.ofFields [(0, littlefsNoEntry)]) 16
        = [(4, littlefsMktag LITTLEFS_TYPE_DELETE 0 0),
          (8, littlefsMktag LITTLEFS_TYPE_CCRC 0x3ff 4)]
      ∧ (littlefsMdirScan (littlefsOneBlock littlefsNoEntry) littlefsFreshMdir 0 0 none 0).1.off
        = 16
      ∧ (littlefsMdirScan (littlefsOneBlock littlefsNoEntry) littlefsFreshMdir 0 0 none 0).1.count
        = 65535
      ∧ ¬ ∃ es, littlefsReplay (littlefsAccepted (.ofFields [(0, littlefsNoEntry)]) 16) = some es
        ∧ es.length
          = (littlefsMdirScan (littlefsOneBlock littlefsNoEntry) littlefsFreshMdir 0 0
            none 0).1.count := by
  refine ⟨by decide +kernel, by decide +kernel, by decide +kernel, ?_⟩
  rintro ⟨es, hes, -⟩
  have hnone : (littlefsReplay (littlefsAccepted (.ofFields [(0,
    littlefsNoEntry)]) 16)).isNone := by
    decide +kernel
  rw [hes] at hnone
  cases hnone

end FsRover
