import FsRover.Fs.Littlefs
import FsRover.Lib.EditLog
import Mathlib.Data.List.InsertIdx

/-!
# Reading a log of littlefs both ways

## Main definitions

* `FsRover.LittlefsLog` : the tags of a log, newest first.
* `FsRover.littlefsTags` : the tags up to an offset, oldest first.
* `FsRover.LittlefsEntry`, `FsRover.littlefsReplay` : the entries after a log.

## Main results

* `FsRover.littlefsMdirScan_spec` : what the scan publishes.
* `FsRover.littlefsSliceLoop_eq` : the walk back finds what the replay has.
-/

namespace FsRover

/-! ### Masks -/

/-- Equality under a mask is equality of the bits of the mask. -/
theorem land_eq_land_iff {m a b : ℕ} :
    m &&& a = m &&& b ↔ ∀ i, m.testBit i = true → a.testBit i = b.testBit i := by
  constructor
  · intro h i hi
    have hbit := congrArg (Nat.testBit · i) h
    simpa [hi] using hbit
  · intro h
    refine Nat.eq_of_testBit_eq fun i => ?_
    rw [Nat.testBit_and, Nat.testBit_and]
    cases hm : m.testBit i with
    | false => rfl
    | true => rw [h i hm]

theorem field_eq_iff {s w a b : ℕ} :
    a / 2 ^ s % 2 ^ w = b / 2 ^ s % 2 ^ w ↔ ∀ i, s ≤ i → i < s + w → a.testBit i = b.testBit i := by
  constructor
  · intro h i hs hw
    have hbit := congrArg (Nat.testBit · (i - s)) h
    simp only [Nat.testBit_mod_two_pow, Nat.testBit_div_two_pow] at hbit
    rw [Nat.sub_add_cancel hs] at hbit
    simpa [show i - s < w by omega] using hbit
  · intro h
    refine Nat.eq_of_testBit_eq fun i => ?_
    rw [Nat.testBit_mod_two_pow, Nat.testBit_mod_two_pow, Nat.testBit_div_two_pow,
      Nat.testBit_div_two_pow]
    by_cases hi : i < w
    · rw [h (i + s) (by omega) (by omega)]
    · simp [hi]

theorem testBit_mask {m : ℕ} (hm : m < 2 ^ 32) {p : ℕ → Prop} [DecidablePred p]
    (h : ∀ i < 32, (m.testBit i = true ↔ p i)) (hp : ∀ i, p i → i < 32) (i : ℕ) :
    m.testBit i = true ↔ p i := by
  by_cases hi : i < 32
  · exact h i hi
  · have hbit : m.testBit i = false :=
      Nat.testBit_lt_two_pow (Nat.lt_of_lt_of_le hm (Nat.pow_le_pow_right (by decide) (by omega)))
    rw [hbit]
    exact ⟨(fun h => by cases h), fun hpi => absurd (hp i hpi) hi⟩

theorem nameMask_eq_iff {a b : ℕ} : LITTLEFS_NAME_MASK &&& a = LITTLEFS_NAME_MASK &&& b
    ↔ littlefsTagType2 a = littlefsTagType2 b ∧ littlefsTagId a = littlefsTagId b := by
  have hmask := testBit_mask (m := LITTLEFS_NAME_MASK)
    (p := fun i => (27 ≤ i ∧ i < 31) ∨ 10 ≤ i ∧ i < 20)
    (by decide) (by decide) (fun i hi => by omega)
  rw [land_eq_land_iff, littlefsTagType2, littlefsTagType2, littlefsTagId, littlefsTagId,
    Nat.mul_left_inj (by decide), field_eq_iff, field_eq_iff]
  constructor
  · intro h
    exact ⟨fun i hs hw => h i ((hmask i).mpr (.inl ⟨hs, hw⟩)),
      fun i hs hw => h i ((hmask i).mpr (.inr ⟨hs, hw⟩))⟩
  · rintro ⟨htype, hid⟩ i hi
    rcases (hmask i).mp hi with ⟨hs, hw⟩ | ⟨hs, hw⟩
    · exact htype i hs hw
    · exact hid i hs hw

theorem structMask_eq_iff {a b : ℕ} : LITTLEFS_STRUCT_MASK &&& a = LITTLEFS_STRUCT_MASK &&& b
    ↔ littlefsTagType1 a = littlefsTagType1 b ∧ littlefsTagId a = littlefsTagId b := by
  have hmask := testBit_mask (m := LITTLEFS_STRUCT_MASK)
    (p := fun i => (28 ≤ i ∧ i < 31) ∨ 10 ≤ i ∧ i < 20) (by decide) (by decide)
      (fun i hi => by omega)
  rw [land_eq_land_iff, littlefsTagType1, littlefsTagType1, littlefsTagId, littlefsTagId,
    Nat.mul_left_inj (by decide), field_eq_iff, field_eq_iff]
  constructor
  · intro h
    exact ⟨fun i hs hw => h i ((hmask i).mpr (.inl ⟨hs, hw⟩)),
      fun i hs hw => h i ((hmask i).mpr (.inr ⟨hs, hw⟩))⟩
  · rintro ⟨htype, hid⟩ i hi
    rcases (hmask i).mp hi with ⟨hs, hw⟩ | ⟨hs, hw⟩
    · exact htype i hs hw
    · exact hid i hs hw

/-! ### Logs -/

/-- The tag the next one is stored as a difference to. -/
def littlefsNext (tag : ℕ) : ℕ :=
  if littlefsTagType2 tag = LITTLEFS_TYPE_CCRC then tag ^^^
    (littlefsTagChunk tag % 2 * 2 ^ 31) else tag

theorem xor_high_mod (a c : ℕ) : (a ^^^ (c * 2 ^ 31)) % 2 ^ 31 = a % 2 ^ 31 := by
  rw [Nat.xor_mod_two_pow, Nat.mul_mod_left, Nat.xor_zero]

theorem littlefsNext_mod (tag : ℕ) : littlefsNext tag % 2 ^ 31 = tag % 2 ^ 31 := by
  rw [littlefsNext]
  split_ifs
  · exact xor_high_mod tag _
  · rfl

theorem littlefsTagDsize_congr {a b : ℕ} (h : a % 2 ^ 31 = b % 2 ^ 31) :
    littlefsTagDsize a = littlefsTagDsize b := by
  have hlow : a % 2 ^ 10 = b % 2 ^ 10 := by omega
  rw [littlefsTagDsize, littlefsTagDsize, littlefsTagIsdelete, littlefsTagIsdelete, hlow,
    littlefsTagSize, littlefsTagSize]
  split_ifs <;> omega

theorem four_le_littlefsTagDsize (tag : ℕ) : 4 ≤ littlefsTagDsize tag := Nat.le_add_right 4 _

/-- The tags of a log with their offsets, newest first, up to the tag at `off`; `ptag` is the
difference base of the tag behind it. -/
inductive LittlefsLog (blk : Buf) : List (ℕ × ℕ) → ℕ → ℕ → Prop
  | nil : LittlefsLog blk [] 0 LITTLEFS_TAG_INVALID
  | cons {log : List (ℕ × ℕ)} {off ptag tag : ℕ} (hlog : LittlefsLog blk log off ptag)
    (htag : tag = lostBe32 blk (off + littlefsTagDsize ptag) ^^^ ptag) (hvalid : tag < 2 ^ 31) :
    LittlefsLog blk ((off + littlefsTagDsize ptag, tag) :: log) (off + littlefsTagDsize ptag)
      (littlefsNext tag)

/-- The tags of a block that start before `stop`, oldest first, from behind the tag at `off` on. -/
def littlefsTags (blk : Buf) (stop : ℕ) : ℕ → ℕ → ℕ → List (ℕ × ℕ)
  | 0, _, _ => []
  | fuel + 1, off, ptag =>
    if stop ≤ off + littlefsTagDsize ptag then []
    else
      let tag := lostBe32 blk (off + littlefsTagDsize ptag) ^^^ ptag
      (off + littlefsTagDsize ptag, tag)
        :: littlefsTags blk stop fuel (off + littlefsTagDsize ptag) (littlefsNext tag)

/-- The tags of the accepted commits, oldest first. -/
def littlefsAccepted (blk : Buf) (stop : ℕ) : List (ℕ × ℕ) :=
  littlefsTags blk stop stop 0 LITTLEFS_TAG_INVALID

theorem LittlefsLog.tags_eq {blk : Buf} {log : List (ℕ × ℕ)} {off ptag : ℕ}
    (h : LittlefsLog blk log off ptag) :
    littlefsAccepted blk (off + littlefsTagDsize ptag) = log.reverse := by
  -- from the front to a point of the log, and from there to the end
  have hsplit : ∀ {log : List (ℕ × ℕ)} {off ptag : ℕ}, LittlefsLog blk log off ptag →
      ∀ stop fuel, off + littlefsTagDsize ptag ≤ stop →
      littlefsTags blk stop (fuel + log.length) 0 LITTLEFS_TAG_INVALID
        = log.reverse ++ littlefsTags blk stop fuel off ptag := by
    intro log off ptag h
    induction h with
    | nil =>
      intro stop fuel _
      rfl
    | @cons log off ptag tag hlog htag hvalid ih =>
      intro stop fuel hstop
      have hpos := four_le_littlefsTagDsize (littlefsNext tag)
      have hstep : littlefsTags blk stop (fuel + 1) off ptag
          = (off + littlefsTagDsize ptag, tag)
            :: littlefsTags blk stop fuel (off + littlefsTagDsize ptag) (littlefsNext tag) := by
        rw [littlefsTags, if_neg (by omega), ← htag]
      rw [List.length_cons, show fuel + (log.length + 1) = fuel + 1 + log.length by omega,
        ih stop (fuel + 1) (by omega), hstep, List.reverse_cons, List.append_assoc]
      rfl
  have hlength : ∀ {log : List (ℕ × ℕ)} {off ptag : ℕ}, LittlefsLog blk log off ptag →
      log.length ≤ off := by
    intro log off ptag h
    induction h with
    | nil => exact Nat.le_refl 0
    | @cons log off ptag tag hlog htag hvalid ih =>
      have hpos := four_le_littlefsTagDsize ptag
      rw [List.length_cons]
      omega
  have hle := hlength h
  have hpos := four_le_littlefsTagDsize ptag
  obtain ⟨fuel, hfuel⟩ : ∃ fuel, off + littlefsTagDsize ptag = fuel + 1 + log.length :=
    ⟨off + littlefsTagDsize ptag - 1 - log.length, by omega⟩
  rw [littlefsAccepted]
  have hend := hsplit h (off + littlefsTagDsize ptag) (fuel + 1) (Nat.le_refl _)
  rw [← hfuel] at hend
  rw [hend, littlefsTags, if_pos (Nat.le_refl _), List.append_nil]

/-! ### The scan -/

/-- The entry count after a log, newest tag first. -/
def littlefsCount : List (ℕ × ℕ) → ℕ
  | [] => 0
  | (_, tag) :: log =>
    if littlefsTagType1 tag = LITTLEFS_TYPE_NAME then
      if littlefsCount log ≤ littlefsTagId tag then (littlefsTagId tag + 1) % 2 ^ 16
      else littlefsCount log
    else if littlefsTagType1 tag = LITTLEFS_TYPE_SPLICE then
      (littlefsCount log + littlefsTagSplice tag) % 2 ^ 16
    else littlefsCount log

/-- The tail after a log, newest tag first, and whether it is a hard one. -/
def littlefsTail (blk : Buf) : List (ℕ × ℕ) → (ℕ × ℕ) × Bool
  | [] => ((LITTLEFS_BLOCK_NULL, LITTLEFS_BLOCK_NULL), false)
  | (off, tag) :: log =>
    if littlefsTagType1 tag = LITTLEFS_TYPE_TAIL then
      ((lostLe32 blk (off + 4), lostLe32 blk (off + 8)), littlefsTagChunk tag % 2 = 1)
    else littlefsTail blk log

/-- The tails of a log are whole. -/
def LittlefsWhole (log : List (ℕ × ℕ)) : Prop :=
  ∀ r ∈ log, littlefsTagType1 r.2 = LITTLEFS_TYPE_TAIL → 12 ≤ littlefsTagDsize r.2

/-- What the scan publishes after a commit. -/
structure LittlefsPublished (blockSize : ℕ) (blk : Buf) (mdir : LittlefsMdir) (log : List (ℕ × ℕ)) :
    Prop where
  tags : ∃ off, LittlefsLog blk log off mdir.etag ∧ mdir.off = off + littlefsTagDsize mdir.etag
  ne_nil : log ≠ []
  whole : LittlefsWhole log
  off_le : mdir.off ≤ blockSize
  count_eq : mdir.count = littlefsCount log
  tail_eq : (mdir.tail, mdir.split) = littlefsTail blk log

/-- Where the loop of the scan is: a log is read, and part of it is published. -/
structure LittlefsScanned (blockSize : ℕ) (blk : Buf) (mdir : LittlefsMdir) (s : LittlefsScan) :
    Prop where
  read : ∃ log, LittlefsLog blk log s.off s.ptag ∧ LittlefsWhole log
    ∧ s.tempcount = littlefsCount log ∧ (s.temptail, s.tempsplit) = littlefsTail blk log
  off_le : s.off + littlefsTagDsize s.ptag ≤ blockSize
  pair_eq : s.mdir.pair = mdir.pair
  published : s.mdir = mdir ∨ ∃ log, LittlefsPublished blockSize blk s.mdir log

theorem littlefsScanTag_spec {blk : Buf} {off tag : ℕ} {s s' : LittlefsScan} {log : List (ℕ × ℕ)}
    (h : littlefsScanTag blk tag s = some s') (hoff : s.off = off)
    (hcount : s.tempcount = littlefsCount log)
    (htail : (s.temptail, s.tempsplit) = littlefsTail blk log) :
    s'.off = s.off ∧ s'.ptag = s.ptag ∧ s'.mdir = s.mdir
      ∧ (littlefsTagType1 tag = LITTLEFS_TYPE_TAIL → 12 ≤ littlefsTagDsize tag)
      ∧ s'.tempcount = littlefsCount ((off, tag) :: log)
      ∧ (s'.temptail, s'.tempsplit) = littlefsTail blk ((off, tag) :: log) := by
  rw [littlefsScanTag] at h
  rw [littlefsCount, littlefsTail]
  by_cases hname : littlefsTagType1 tag = LITTLEFS_TYPE_NAME
  · rw [if_pos hname] at h
    obtain rfl := Option.some.inj h
    have hnot : ¬ littlefsTagType1 tag = LITTLEFS_TYPE_TAIL := by
      rw [hname]
      decide
    rw [if_pos hname, if_neg hnot, ← hcount]
    exact ⟨rfl, rfl, rfl, fun h => absurd h hnot, rfl, htail⟩
  rw [if_neg hname] at h ⊢
  by_cases hsplice : littlefsTagType1 tag = LITTLEFS_TYPE_SPLICE
  · rw [if_pos hsplice] at h
    obtain rfl := Option.some.inj h
    have hnot : ¬ littlefsTagType1 tag = LITTLEFS_TYPE_TAIL := by
      rw [hsplice]
      decide
    rw [if_pos hsplice, if_neg hnot, ← hcount]
    exact ⟨rfl, rfl, rfl, fun h => absurd h hnot, rfl, htail⟩
  rw [if_neg hsplice] at h ⊢
  by_cases htype : littlefsTagType1 tag = LITTLEFS_TYPE_TAIL
  · rw [if_pos htype] at h ⊢
    split_ifs at h with hshort
    obtain rfl := Option.some.inj h
    rw [← hoff]
    exact ⟨rfl, rfl, rfl, fun _ => Nat.not_lt.mp hshort, hcount, rfl⟩
  · rw [if_neg htype] at h ⊢
    obtain rfl := Option.some.inj h
    exact ⟨rfl, rfl, rfl, fun h => absurd h htype, hcount, htail⟩

theorem type1_of_ccrc {tag : ℕ} (h : littlefsTagType2 tag = LITTLEFS_TYPE_CCRC) :
    littlefsTagType1 tag = 0x500 := by
  rw [littlefsTagType2, LITTLEFS_TYPE_CCRC] at h
  rw [littlefsTagType1]
  omega

theorem LittlefsLog.ptag_lt {blk : Buf} {log : List (ℕ × ℕ)} {off ptag : ℕ}
    (h : LittlefsLog blk log off ptag) : ptag < 2 ^ 32 := by
  cases h with
  | nil => decide
  | @cons log off ptag tag hlog htag hvalid =>
    rw [littlefsNext]
    split_ifs
    · refine Nat.xor_lt_two_pow (Nat.lt_trans hvalid (by decide)) ?_
      have hbit := Nat.mod_lt (littlefsTagChunk tag) (show 0 < 2 by decide)
      omega
    · exact Nat.lt_trans hvalid (by decide)

theorem LittlefsLog.valid_lt {blk : Buf} {log : List (ℕ × ℕ)} {off ptag tag : ℕ}
    (h : LittlefsLog blk log off ptag) (i : ℕ) (htag : lostBe32 blk i ^^^ ptag = tag)
    (hvalid : littlefsTagIsvalid tag = true) : tag < 2 ^ 31 := by
  have hlt : tag < 2 ^ 32 := htag ▸ Nat.xor_lt_two_pow (lostBe32_lt blk i) h.ptag_lt
  have hbit : tag / 2 ^ 31 % 2 = 0 := of_decide_eq_true hvalid
  omega

theorem LittlefsScanned.step {blockSize : ℕ} {blk : Buf} {mdir : LittlefsMdir} {fmask ftag : ℕ}
    {cb : Option (ℕ → Buf → LittlefsCmp)} {s s' : LittlefsScan}
    (hs : LittlefsScanned blockSize blk mdir s)
    (h : littlefsScanStep blockSize blk fmask ftag cb s = some s') :
    LittlefsScanned blockSize blk mdir s' := by
  obtain ⟨⟨log, hlog, hwhole, hcount, htail⟩, hoff, hpair, hpublished⟩ := hs
  rw [littlefsScanStep] at h
  simp only at h
  generalize htag : lostBe32 blk (s.off + littlefsTagDsize s.ptag) ^^^ s.ptag = tag at h
  by_cases hstop : blockSize < s.off + littlefsTagDsize s.ptag + 4 ∨ littlefsTagIsvalid tag = false
    ∨ blockSize - (s.off + littlefsTagDsize s.ptag) < littlefsTagDsize tag
  · rw [if_pos hstop] at h
    cases h
  rw [if_neg hstop] at h
  rw [not_or, not_or, Bool.not_eq_false] at hstop
  obtain ⟨hfits, hvalid, hsize⟩ := hstop
  have hlog' := LittlefsLog.cons hlog htag.symm (hlog.valid_lt _ htag hvalid)
  have hnext : littlefsTagDsize (littlefsNext tag) = littlefsTagDsize tag :=
    littlefsTagDsize_congr (littlefsNext_mod tag)
  by_cases hccrc : littlefsTagType2 tag = LITTLEFS_TYPE_CCRC
  · -- a checksum publishes what was read
    rw [if_pos hccrc] at h
    split_ifs at h
    obtain rfl := Option.some.inj h
    have hptag : tag ^^^ (littlefsTagChunk tag % 2 * 2 ^ 31)
      = littlefsNext tag := (if_pos hccrc).symm
    have htype := type1_of_ccrc hccrc
    have hsame : littlefsCount ((s.off + littlefsTagDsize s.ptag, tag) :: log) = littlefsCount log
        ∧ littlefsTail blk ((s.off + littlefsTagDsize s.ptag, tag) :: log)
          = littlefsTail blk log := by
      rw [littlefsCount, littlefsTail, htype]
      exact ⟨rfl, rfl⟩
    have hnot : ¬ littlefsTagType1 tag = LITTLEFS_TYPE_TAIL := by
      rw [htype]
      decide
    have hwhole' : LittlefsWhole ((s.off + littlefsTagDsize s.ptag, tag) :: log) :=
      List.forall_mem_cons.mpr ⟨fun h => absurd h hnot, hwhole⟩
    rw [hptag]
    refine ⟨⟨_, hlog', hwhole', hcount.trans hsame.1.symm, htail.trans hsame.2.symm⟩, ?_, hpair,
      .inr ⟨_, ⟨_, hlog', ?_⟩, List.cons_ne_nil _ _, hwhole', ?_, hcount.trans hsame.1.symm,
        htail.trans hsame.2.symm⟩⟩
    · simp only [hnext]
      omega
    · simp only [hnext]
    · simp only
      omega
  · rw [if_neg hccrc, Option.map_eq_some_iff] at h
    obtain ⟨t, ht, rfl⟩ := h
    obtain ⟨hoff', hptag', hmdir', hlong, hcount', htail'⟩ :=
      littlefsScanTag_spec ht rfl hcount htail
    have hself : littlefsNext tag = tag := if_neg hccrc
    rw [hself] at hlog'
    have hwhole' : LittlefsWhole ((s.off + littlefsTagDsize s.ptag, tag) :: log) :=
      List.forall_mem_cons.mpr ⟨hlong, hwhole⟩
    have hfinal : LittlefsScanned blockSize blk mdir t := by
      refine ⟨⟨_, ?_, hwhole', hcount', htail'⟩, ?_, ?_, ?_⟩
      · rw [hoff', hptag']
        exact hlog'
      · rw [hoff', hptag']
        simp only
        omega
      · rw [hmdir']
        exact hpair
      · rw [hmdir']
        exact hpublished
    cases cb with
    | none => exact hfinal
    | some cb =>
      simp only
      split_ifs
      · exact ⟨hfinal.read, hfinal.off_le, hfinal.pair_eq, hfinal.published⟩
      · exact hfinal

theorem LittlefsScanned.loop {blockSize : ℕ} {blk : Buf} {mdir : LittlefsMdir} {fmask ftag : ℕ}
    {cb : Option (ℕ → Buf → LittlefsCmp)} (fuel : ℕ) {s : LittlefsScan}
    (hs : LittlefsScanned blockSize blk mdir s) :
    LittlefsScanned blockSize blk mdir (littlefsScanLoop blockSize blk fmask ftag cb fuel s) := by
  induction fuel generalizing s with
  | zero => exact hs
  | succ fuel ih =>
    rw [littlefsScanLoop]
    cases hstep : littlefsScanStep blockSize blk fmask ftag cb s with
    | none => exact hs
    | some s' => exact ih (hs.step hstep)

theorem littlefsScanTag_off {blk : Buf} {tag : ℕ} {s s' : LittlefsScan}
    (h : littlefsScanTag blk tag s = some s') : s'.off = s.off := by
  rw [littlefsScanTag] at h
  split_ifs at h <;>
    · rw [← Option.some.inj h]

theorem littlefsScanStep_off {blockSize : ℕ} {blk : Buf} {fmask ftag : ℕ}
    {cb : Option (ℕ → Buf → LittlefsCmp)} {s s' : LittlefsScan}
    (h : littlefsScanStep blockSize blk fmask ftag cb s = some s') :
    s'.off = s.off + littlefsTagDsize s.ptag := by
  rw [littlefsScanStep] at h
  simp only at h
  generalize lostBe32 blk (s.off + littlefsTagDsize s.ptag) ^^^ s.ptag = tag at h
  by_cases hstop : blockSize < s.off + littlefsTagDsize s.ptag + 4 ∨ littlefsTagIsvalid tag = false
    ∨ blockSize - (s.off + littlefsTagDsize s.ptag) < littlefsTagDsize tag
  · rw [if_pos hstop] at h
    cases h
  rw [if_neg hstop] at h
  by_cases hccrc : littlefsTagType2 tag = LITTLEFS_TYPE_CCRC
  · rw [if_pos hccrc] at h
    split_ifs at h
    exact congrArg LittlefsScan.off (Option.some.inj h).symm
  · rw [if_neg hccrc, Option.map_eq_some_iff] at h
    obtain ⟨t, ht, rfl⟩ := h
    have hoff := littlefsScanTag_off ht
    cases cb with
    | none => exact hoff
    | some cb =>
      simp only
      split_ifs <;> exact hoff

/-- The loop ends by itself: it is out of rounds only at the end of the block. -/
theorem littlefsScanLoop_halts {blockSize : ℕ} {blk : Buf} {fmask ftag : ℕ}
    {cb : Option (ℕ → Buf → LittlefsCmp)} {fuel : ℕ} {s : LittlefsScan}
    (hfuel : blockSize < s.off + 4 * fuel + 4 + 4) :
    littlefsScanStep blockSize blk fmask ftag cb
      (littlefsScanLoop blockSize blk fmask ftag cb fuel s) = none := by
  induction fuel generalizing s with
  | zero =>
    have hpos := four_le_littlefsTagDsize s.ptag
    rw [littlefsScanLoop, littlefsScanStep]
    exact if_pos (.inl (by omega))
  | succ fuel ih =>
    rw [littlefsScanLoop]
    cases hstep : littlefsScanStep blockSize blk fmask ftag cb s with
    | none => exact hstep
    | some s' =>
      have hoff := littlefsScanStep_off hstep
      have hpos := four_le_littlefsTagDsize s.ptag
      exact ih (by omega)

/-- The loop of `littlefs_mdir_scan` ends by itself on every block. -/
theorem littlefsMdirScan_halts (blockSize : ℕ) (blk : Buf) (mdir : LittlefsMdir)
    (fmask ftag besttag : ℕ) (cb : Option (ℕ → Buf → LittlefsCmp)) :
    littlefsScanStep blockSize blk fmask ftag cb (littlefsScanLoop blockSize blk fmask ftag cb
      blockSize (.init blk mdir besttag)) = none := littlefsScanLoop_halts (by omega)

/-- What the scan of a block leaves in the pair: nothing new, or the newest commit that was
accepted. -/
theorem littlefsMdirScan_spec {data : LittlefsData} {mdir : LittlefsMdir} {fmask ftag : ℕ}
    {cb : Option (ℕ → Buf → LittlefsCmp)} {besttag : ℕ} {blk : Buf} (hsize : 4 ≤ data.blockSize)
    (hcount : mdir.pair.1 < data.blockCount) (hblk : data.block mdir.pair.1 = .ok blk) :
    (littlefsMdirScan data mdir fmask ftag cb besttag).1.pair = mdir.pair
      ∧ ((littlefsMdirScan data mdir fmask ftag cb besttag).1 = mdir
        ∨ ∃ log, LittlefsPublished data.blockSize blk
          (littlefsMdirScan data mdir fmask ftag cb besttag).1 log) := by
  have hread : littlefsMread data mdir.pair.1 0 4 = .ok blk := by
    rw [littlefsMread, if_neg (Nat.not_le.mpr hcount), hblk]
    simp only
    rw [if_neg (by omega)]
    refine congrArg Except.ok (funext fun i => ?_)
    rw [Buf.from_apply, Nat.zero_add]
  have hinit : LittlefsScanned data.blockSize blk mdir (.init blk mdir besttag) := by
    refine ⟨⟨[], .nil, List.forall_mem_nil _, rfl, rfl⟩, ?_, rfl, .inl rfl⟩
    show 0 + littlefsTagDsize LITTLEFS_TAG_INVALID ≤ data.blockSize
    rwa [show 0 + littlefsTagDsize LITTLEFS_TAG_INVALID = 4 by decide]
  have hend := @LittlefsScanned.loop _ _ _ fmask ftag cb data.blockSize _ hinit
  rw [littlefsMdirScan, hread]
  exact ⟨hend.pair_eq, hend.published⟩

/-! ### Entries -/

/-- What an entry has. -/
inductive LittlefsSlot
  | name | struct
  deriving DecidableEq

/-- An entry: the tag for each slot, with its offset. -/
abbrev LittlefsEntry := LittlefsSlot → Option (ℕ × ℕ)

/-- A tag that deletes its slot leaves nothing there. -/
def littlefsKept (off tag : ℕ) : Option (ℕ × ℕ) :=
  if littlefsTagIsdelete tag then none else some (off, tag)

/-- The edit of a tag on the list of entries. A name names an entry or makes the one behind the
last, a structure belongs to an entry, and there are at most 1023 entries; no other splice than a
creation without payload and a deletion is an edit. -/
def littlefsEdit (es : List LittlefsEntry) : ℕ × ℕ → Option (List LittlefsEntry)
  | (off, tag) =>
    let id := littlefsTagId tag
    if littlefsTagType1 tag = LITTLEFS_TYPE_NAME then
      if id ≤ es.length ∧ id < 0x3ff then
        let es := if id = es.length then es ++ [fun _ => none] else es
        some (if littlefsTagType2 tag = LITTLEFS_TYPE_NAME then
          es.modify id (Function.update · .name (littlefsKept off tag)) else es)
      else none
    else if littlefsTagType1 tag = LITTLEFS_TYPE_STRUCT then
      if id < es.length then some (es.modify id (Function.update · .struct (littlefsKept off tag)))
      else none
    else if littlefsTagType1 tag = LITTLEFS_TYPE_SPLICE then
      if tag = littlefsMktag LITTLEFS_TYPE_CREATE id 0 ∧ id ≤ es.length ∧ es.length < 0x3ff then
        some (es.insertIdx id fun _ => none)
      else if littlefsTagType3 tag = LITTLEFS_TYPE_DELETE ∧ id
        < es.length then some (es.eraseIdx id)
      else none
    else some es

/-- The entries after the tags, oldest first, if each is an edit. -/
def littlefsReplay (tags : List (ℕ × ℕ)) : Option (List LittlefsEntry) := tags.foldlM
  littlefsEdit []

/-- The edits of a tag on one slot, newest first. -/
def littlefsEdits (slot : LittlefsSlot) : ℕ × ℕ → List (EditLog.Edit (ℕ × ℕ))
  | (off, tag) =>
    let id := littlefsTagId tag
    if littlefsTagType1 tag = LITTLEFS_TYPE_NAME then
      if slot = .name ∧ littlefsTagType2 tag = LITTLEFS_TYPE_NAME then
        [.put id (littlefsKept off tag), .grow id]
      else [.grow id]
    else if littlefsTagType1 tag = LITTLEFS_TYPE_STRUCT then
      if slot = .struct then [.put id (littlefsKept off tag)] else []
    else if littlefsTagType1 tag = LITTLEFS_TYPE_SPLICE then
      if tag = littlefsMktag LITTLEFS_TYPE_CREATE id 0 then [.create id] else [.delete id]
    else []

theorem littlefsReplay_cons {log : List (ℕ × ℕ)} {r : ℕ × ℕ} :
    littlefsReplay (r :: log).reverse = (littlefsReplay log.reverse).bind (littlefsEdit · r) := by
  rw [littlefsReplay, List.reverse_cons, List.foldlM_append]
  simp only [List.foldlM_cons, List.foldlM_nil, Option.bind_eq_bind, Option.pure_def,
    Option.bind_fun_some]
  rfl

/-- The list with the entry that a name makes. -/
def littlefsGrown (es : List LittlefsEntry) (id : ℕ) : List LittlefsEntry :=
  if id = es.length then es ++ [fun _ => none] else es

theorem littlefsEdit_cases {es es' : List LittlefsEntry} {off tag : ℕ}
    (h : littlefsEdit es (off, tag) = some es') :
    (littlefsTagType1 tag = LITTLEFS_TYPE_NAME ∧ littlefsTagId tag ≤ es.length
      ∧ littlefsTagId tag < 0x3ff ∧ es' = if littlefsTagType2 tag = LITTLEFS_TYPE_NAME then
        (littlefsGrown es (littlefsTagId tag)).modify (littlefsTagId tag)
          (Function.update · .name (littlefsKept off tag))
        else littlefsGrown es (littlefsTagId tag))
    ∨ (littlefsTagType1 tag = LITTLEFS_TYPE_STRUCT ∧ littlefsTagId tag < es.length
      ∧ es' = es.modify (littlefsTagId tag) (Function.update · .struct (littlefsKept off tag)))
    ∨ (littlefsTagType1 tag = LITTLEFS_TYPE_SPLICE
      ∧ tag = littlefsMktag LITTLEFS_TYPE_CREATE (littlefsTagId tag) 0
      ∧ littlefsTagId tag ≤ es.length ∧ es.length < 0x3ff
      ∧ es' = es.insertIdx (littlefsTagId tag) fun _ => none)
    ∨ (littlefsTagType1 tag = LITTLEFS_TYPE_SPLICE ∧ littlefsTagType3 tag = LITTLEFS_TYPE_DELETE
      ∧ littlefsTagId tag < es.length ∧ es' = es.eraseIdx (littlefsTagId tag))
    ∨ (littlefsTagType1 tag ≠ LITTLEFS_TYPE_NAME ∧ littlefsTagType1 tag ≠ LITTLEFS_TYPE_STRUCT
      ∧ littlefsTagType1 tag ≠ LITTLEFS_TYPE_SPLICE ∧ es' = es) := by
  simp only [littlefsEdit] at h
  by_cases hname : littlefsTagType1 tag = LITTLEFS_TYPE_NAME
  · rw [if_pos hname] at h
    by_cases hid : littlefsTagId tag ≤ es.length ∧ littlefsTagId tag < 0x3ff
    · rw [if_pos hid] at h
      exact .inl ⟨hname, hid.1, hid.2, (Option.some.inj h).symm⟩
    · rw [if_neg hid] at h
      cases h
  rw [if_neg hname] at h
  by_cases hstruct : littlefsTagType1 tag = LITTLEFS_TYPE_STRUCT
  · rw [if_pos hstruct] at h
    by_cases hid : littlefsTagId tag < es.length
    · rw [if_pos hid] at h
      exact .inr (.inl ⟨hstruct, hid, (Option.some.inj h).symm⟩)
    · rw [if_neg hid] at h
      cases h
  rw [if_neg hstruct] at h
  by_cases hsplice : littlefsTagType1 tag = LITTLEFS_TYPE_SPLICE
  · rw [if_pos hsplice] at h
    by_cases hcreate : tag = littlefsMktag LITTLEFS_TYPE_CREATE (littlefsTagId tag) 0
      ∧ littlefsTagId tag ≤ es.length ∧ es.length < 0x3ff
    · rw [if_pos hcreate] at h
      exact .inr (.inr (.inl ⟨hsplice, hcreate.1, hcreate.2.1, hcreate.2.2,
        (Option.some.inj h).symm⟩))
    · rw [if_neg hcreate] at h
      by_cases hdelete : littlefsTagType3 tag = LITTLEFS_TYPE_DELETE ∧ littlefsTagId tag < es.length
      · rw [if_pos hdelete] at h
        exact .inr (.inr (.inr (.inl ⟨hsplice, hdelete.1, hdelete.2, (Option.some.inj h).symm⟩)))
      · rw [if_neg hdelete] at h
        cases h
  · rw [if_neg hsplice] at h
    exact .inr (.inr (.inr (.inr ⟨hname, hstruct, hsplice, (Option.some.inj h).symm⟩)))

theorem length_littlefsGrown {es : List LittlefsEntry} {id : ℕ} :
    (littlefsGrown es id).length = if id = es.length then es.length + 1 else es.length := by
  rw [littlefsGrown]
  split_ifs
  · rw [List.length_append, List.length_singleton]
  · rfl

theorem littlefsTagSplice_create {tag : ℕ}
    (h : tag = littlefsMktag LITTLEFS_TYPE_CREATE (littlefsTagId tag) 0) :
    littlefsTagSplice tag = 1 := by
  have hchunk : littlefsTagChunk tag = 1 := by
    have hid : littlefsTagId tag < 2 ^ 10 := Nat.mod_lt _ (by decide)
    rw [h, littlefsTagChunk, littlefsMktag, LITTLEFS_TYPE_CREATE]
    omega
  rw [littlefsTagSplice, hchunk]
  rfl

theorem littlefsTagSplice_delete {tag : ℕ} (h : littlefsTagType3 tag = LITTLEFS_TYPE_DELETE) :
    littlefsTagSplice tag = 2 ^ 32 - 1 := by
  have hchunk : littlefsTagChunk tag = 0xff := by
    rw [littlefsTagType3, LITTLEFS_TYPE_DELETE] at h
    rw [littlefsTagChunk]
    omega
  rw [littlefsTagSplice, hchunk]
  rfl

theorem littlefsReplay_length {log : List (ℕ × ℕ)} {es : List LittlefsEntry}
    (h : littlefsReplay log.reverse = some es) : es.length ≤ 0x3ff
      ∧ littlefsCount log = es.length := by
  induction log generalizing es with
  | nil =>
    obtain rfl := Option.some.inj h
    exact ⟨Nat.zero_le _, rfl⟩
  | cons r log ih =>
    rw [littlefsReplay_cons, Option.bind_eq_some_iff] at h
    obtain ⟨old, hold, hedit⟩ := h
    obtain ⟨hle, hcount⟩ := ih hold
    obtain ⟨off, tag⟩ := r
    rw [littlefsCount, hcount]
    rcases littlefsEdit_cases hedit with ⟨hname, hid, hmax, rfl⟩ | ⟨hstruct, hid, rfl⟩
      | ⟨hsplice, hcreate, hid, hlen, rfl⟩ | ⟨hsplice, hdelete, hid, rfl⟩ | ⟨hname, -, hsplice, rfl⟩
    · have hlength : (if littlefsTagType2 tag = LITTLEFS_TYPE_NAME then
          (littlefsGrown old (littlefsTagId tag)).modify (littlefsTagId tag)
            (Function.update · .name (littlefsKept off tag))
          else littlefsGrown old (littlefsTagId tag)).length
          = if littlefsTagId tag = old.length then old.length + 1 else old.length := by
        split_ifs with h h'
        · rw [List.length_modify, length_littlefsGrown, if_pos h']
        · rw [List.length_modify, length_littlefsGrown, if_neg ‹_›]
        · rw [length_littlefsGrown, if_pos ‹_›]
        · rw [length_littlefsGrown, if_neg ‹_›]
      rw [if_pos hname, hlength]
      by_cases hend : littlefsTagId tag = old.length
      · rw [if_pos hend, if_pos (by omega)]
        omega
      · rw [if_neg hend, if_neg (by omega)]
        omega
    · rw [if_neg (by rw [hstruct]; decide), if_neg (by rw [hstruct]; decide), List.length_modify]
      exact ⟨hle, rfl⟩
    · rw [if_neg (by rw [hsplice]; decide), if_pos hsplice, littlefsTagSplice_create hcreate,
        List.length_insertIdx_of_le_length hid]
      omega
    · rw [if_neg (by rw [hsplice]; decide), if_pos hsplice, littlefsTagSplice_delete hdelete,
        List.length_eraseIdx_of_lt hid]
      omega
    · rw [if_neg hname, if_neg hsplice]
      exact ⟨hle, rfl⟩

/-- On one slot the replay is the one of the edits of the slot. -/
theorem littlefsReplay_slot {log : List (ℕ × ℕ)} {es : List LittlefsEntry}
    (h : littlefsReplay log.reverse = some es) (slot : LittlefsSlot) :
    EditLog.replay (log.flatMap (littlefsEdits slot)) = some (es.map (· slot)) := by
  induction log generalizing es with
  | nil =>
    obtain rfl := Option.some.inj h
    rfl
  | cons r log ih =>
    rw [littlefsReplay_cons, Option.bind_eq_some_iff] at h
    obtain ⟨old, hold, hedit⟩ := h
    have hprev := ih hold
    obtain ⟨off, tag⟩ := r
    rw [List.flatMap_cons, littlefsEdits]
    have hgrow : littlefsTagId tag ≤ old.length →
        EditLog.step (old.map (· slot)) (.grow (littlefsTagId tag))
          = some ((littlefsGrown old (littlefsTagId tag)).map (· slot)) := by
      intro hid
      rw [EditLog.step, List.length_map, littlefsGrown]
      by_cases hend : littlefsTagId tag = old.length
      · rw [if_neg (by omega), if_pos hend, if_pos hend, List.map_append]
        rfl
      · rw [if_pos (by omega), if_neg hend]
    have hput : ∀ (l : List LittlefsEntry) (other : LittlefsSlot), littlefsTagId tag < l.length →
        (l.modify (littlefsTagId tag) (Function.update · other (littlefsKept off tag))).map (· slot)
          = if slot = other then (l.map (· slot)).set (littlefsTagId tag) (littlefsKept off tag)
            else l.map (· slot) := by
      intro l other hid
      refine List.ext_getElem? fun i => ?_
      rw [List.getElem?_map, List.getElem?_modify]
      by_cases hslot : slot = other
      · rw [if_pos hslot, List.getElem?_set, List.length_map, List.getElem?_map]
        by_cases hi : littlefsTagId tag = i
        · rw [if_pos hi, if_pos (by omega), List.getElem?_eq_getElem (by omega)]
          simp [hi, hslot]
        · rw [if_neg hi]
          simp [hi]
      · rw [if_neg hslot, List.getElem?_map]
        cases l[i]? with
        | none => rfl
        | some e =>
          simp only [Option.map_eq_map, Option.map_some]
          split_ifs
          · rw [Function.update_of_ne hslot]
          · rfl
    rcases littlefsEdit_cases hedit with ⟨hname, hid, hmax, rfl⟩ | ⟨hstruct, hid, rfl⟩
      | ⟨hsplice, hcreate, hid, hlen, rfl⟩ | ⟨hsplice, hdelete, hid, rfl⟩
      | ⟨hname, hstruct, hsplice, rfl⟩
    · have hlen : littlefsTagId tag < (littlefsGrown old (littlefsTagId tag)).length := by
        rw [length_littlefsGrown]
        split_ifs <;> omega
      have hgrown : EditLog.replay (.grow (littlefsTagId tag) :: log.flatMap (littlefsEdits slot))
          = some ((littlefsGrown old (littlefsTagId tag)).map (· slot)) := by
        rw [EditLog.replay, hprev, Option.bind_some, hgrow hid]
      rw [if_pos hname]
      by_cases htype : littlefsTagType2 tag = LITTLEFS_TYPE_NAME
      · rw [if_pos htype, hput _ _ hlen]
        by_cases hslot : slot = .name
        · rw [if_pos ⟨hslot, htype⟩, if_pos hslot, List.cons_append, List.singleton_append,
            EditLog.replay, hgrown, Option.bind_some, EditLog.step, List.length_map, if_pos hlen]
        · rw [if_neg (fun h => hslot h.1), if_neg hslot, List.singleton_append, hgrown]
      · rw [if_neg (fun h => htype h.2), if_neg htype, List.singleton_append, hgrown]
    · rw [if_neg (by rw [hstruct]; decide), if_pos hstruct, hput _ _ hid]
      by_cases hslot : slot = .struct
      · rw [if_pos hslot, if_pos hslot, List.singleton_append, EditLog.replay,
          hprev, Option.bind_some,
          EditLog.step, List.length_map, if_pos hid]
      · rw [if_neg hslot, if_neg hslot, List.nil_append, hprev]
    · rw [if_neg (by rw [hsplice]; decide), if_neg (by rw [hsplice]; decide), if_pos hsplice,
        if_pos hcreate, List.singleton_append, EditLog.replay, hprev,
          Option.bind_some, EditLog.step,
        List.length_map, if_pos hid, List.map_insertIdx]
    · have hnot : ¬ tag = littlefsMktag LITTLEFS_TYPE_CREATE (littlefsTagId tag) 0 := by
        intro heq
        have hone := littlefsTagSplice_create heq
        rw [littlefsTagSplice_delete hdelete] at hone
        revert hone
        decide
      rw [if_neg (by rw [hsplice]; decide), if_neg (by rw [hsplice]; decide), if_pos hsplice,
        if_neg hnot, List.singleton_append, EditLog.replay, hprev, Option.bind_some, EditLog.step,
        List.length_map, if_pos hid, List.eraseIdx_map]
    · rw [if_neg hname, if_neg hstruct, if_neg hsplice, List.nil_append, hprev]

/-! ### The walk back -/

/-- The highest position the walk back over a log can come to, newest tag first: the walk takes an
entry that a name made for an old one, and goes on. -/
def littlefsReach : List (ℕ × ℕ) → ℕ
  | [] => 0
  | (_, tag) :: log =>
    if littlefsTagType1 tag = LITTLEFS_TYPE_NAME then
      if littlefsCount log ≤ littlefsTagId tag then littlefsReach log + 1 else littlefsReach log
    else if littlefsTagType1 tag = LITTLEFS_TYPE_SPLICE then
      max (littlefsReach log) (littlefsCount ((0, tag) :: log))
    else littlefsReach log

/-- The mask and the type `littlefs_dir_getslice` looks for a slot with. -/
def littlefsSlotMask : LittlefsSlot → ℕ
  | .name => LITTLEFS_NAME_MASK
  | .struct => LITTLEFS_STRUCT_MASK

def littlefsSlotType : LittlefsSlot → ℕ
  | .name => LITTLEFS_TYPE_NAME
  | .struct => LITTLEFS_TYPE_STRUCT

/-- The tag with another id. -/
def littlefsSetId (tag id : ℕ) : ℕ := tag - littlefsTagId tag * 2 ^ 10 + id * 2 ^ 10

/-- What is to be found for the entry `id`: the tag of its slot, with its id, and the payload. -/
def littlefsFound (blk : Buf) (goff gsize id : ℕ) :
    Option (ℕ × ℕ) → LittlefsStatus (ℕ × List UInt8)
  | none => .noent
  | some (off, tag) => .ok (littlefsSetId tag id, littlefsPayload blk off tag goff gsize)

/-- The shift of ids while the walk looks for position `t` on behalf of the id `g`. -/
def littlefsShift (g t : ℕ) : ℕ := (g * 2 ^ 10 + 2 ^ 32 - t * 2 ^ 10) % 2 ^ 32

/-- What `littlefs_dir_getslice` looks for: the tags of a kind, with the id of the entry. -/
structure LittlefsKey where
  mask : ℕ
  type : ℕ
  has : ℕ → Bool
  type_lt : type < 2 ^ 11
  mask_id : littlefsTagId mask ≠ 0
  match_iff : ∀ {tag t : ℕ}, t < 2 ^ 10 →
    (mask &&& tag = mask &&& littlefsMktag type t 0 ↔ littlefsTagId tag = t ∧ has tag = true)
  has_congr : ∀ {a b : ℕ}, a % 2 ^ 31 = b % 2 ^ 31 → has a = has b
  has_type : ∀ {tag : ℕ}, has tag = true →
    littlefsTagType1 tag = LITTLEFS_TYPE_NAME ∨ littlefsTagType1 tag = LITTLEFS_TYPE_STRUCT

/-- The edits of a tag on what is looked for, newest first. -/
def LittlefsKey.edits (key : LittlefsKey) : ℕ × ℕ → List (EditLog.Edit (ℕ × ℕ))
  | (off, tag) =>
    let id := littlefsTagId tag
    if littlefsTagType1 tag = LITTLEFS_TYPE_NAME then
      if key.has tag then [.put id (littlefsKept off tag), .grow id] else [.grow id]
    else if littlefsTagType1 tag = LITTLEFS_TYPE_STRUCT then
      if key.has tag then [.put id (littlefsKept off tag)] else []
    else if littlefsTagType1 tag = LITTLEFS_TYPE_SPLICE then
      if tag = littlefsMktag LITTLEFS_TYPE_CREATE id 0 then [.create id] else [.delete id]
    else []

theorem sub32_littlefsShift {key : LittlefsKey} {g t : ℕ} (hg : g < 2 ^ 10) (ht : t < 2 ^ 10) :
    sub32 (littlefsMktag key.type g 0) (littlefsShift g t) = littlefsMktag key.type t 0 := by
  have htype := key.type_lt
  rw [sub32, littlefsShift, littlefsMktag, littlefsMktag]
  omega

theorem littlefsTagId_mktag {type id : ℕ} (hid : id < 2 ^ 10) :
    littlefsTagId (littlefsMktag type id 0) = id := by
  rw [littlefsTagId, littlefsMktag]
  omega

theorem littlefsTag_congr {a b : ℕ} (h : a % 2 ^ 31 = b % 2 ^ 31) :
    littlefsTagType1 a = littlefsTagType1 b ∧ littlefsTagType2 a = littlefsTagType2 b
      ∧ littlefsTagId a = littlefsTagId b := by
  rw [littlefsTagType1, littlefsTagType1, littlefsTagType2, littlefsTagType2, littlefsTagId,
    littlefsTagId]
  omega

/-- What a slot is looked for with. -/
def LittlefsSlot.key : LittlefsSlot → LittlefsKey
  | .name => {
    mask := LITTLEFS_NAME_MASK
    type := LITTLEFS_TYPE_NAME
    has := fun tag => littlefsTagType2 tag = LITTLEFS_TYPE_NAME
    type_lt := by decide
    mask_id := by decide
    match_iff := fun {tag t} ht => by
      have htype : littlefsTagType2 (littlefsMktag LITTLEFS_TYPE_NAME t 0) = LITTLEFS_TYPE_NAME := by
        rw [littlefsTagType2, littlefsMktag, LITTLEFS_TYPE_NAME]
        omega
      rw [nameMask_eq_iff, htype, littlefsTagId_mktag ht, decide_eq_true_eq]
      exact and_comm
    has_congr := fun h => by rw [(littlefsTag_congr h).2.1]
    has_type := fun {tag} h => by
      have h' : littlefsTagType2 tag = LITTLEFS_TYPE_NAME := of_decide_eq_true h
      rw [littlefsTagType2, LITTLEFS_TYPE_NAME] at h'
      refine .inl ?_
      rw [littlefsTagType1, LITTLEFS_TYPE_NAME]
      omega }
  | .struct => {
    mask := LITTLEFS_STRUCT_MASK
    type := LITTLEFS_TYPE_STRUCT
    has := fun tag => littlefsTagType1 tag = LITTLEFS_TYPE_STRUCT
    type_lt := by decide
    mask_id := by decide
    match_iff := fun {tag t} ht => by
      have htype : littlefsTagType1 (littlefsMktag LITTLEFS_TYPE_STRUCT t 0)
          = LITTLEFS_TYPE_STRUCT := by
        rw [littlefsTagType1, littlefsMktag, LITTLEFS_TYPE_STRUCT]
        omega
      rw [structMask_eq_iff, htype, littlefsTagId_mktag ht, decide_eq_true_eq]
      exact and_comm
    has_congr := fun h => by rw [(littlefsTag_congr h).1]
    has_type := fun h => .inr (of_decide_eq_true h) }

theorem LittlefsSlot.key_mask (slot : LittlefsSlot) : slot.key.mask = littlefsSlotMask slot := by
  cases slot <;> rfl

theorem LittlefsSlot.key_type (slot : LittlefsSlot) : slot.key.type = littlefsSlotType slot := by
  cases slot <;> rfl

theorem LittlefsSlot.key_edits (slot : LittlefsSlot) : slot.key.edits = littlefsEdits slot := by
  funext ⟨off, tag⟩
  rw [LittlefsKey.edits, littlefsEdits]
  by_cases hname : littlefsTagType1 tag = LITTLEFS_TYPE_NAME
  · rw [if_pos hname, if_pos hname]
    have hstruct : ¬ littlefsTagType1 tag = LITTLEFS_TYPE_STRUCT := by
      rw [hname]
      decide
    cases slot with
    | name => simp [LittlefsSlot.key]
    | struct => simp [LittlefsSlot.key, hstruct]
  · rw [if_neg hname, if_neg hname]
    by_cases hstruct : littlefsTagType1 tag = LITTLEFS_TYPE_STRUCT
    · rw [if_pos hstruct, if_pos hstruct]
      have hno : ¬ littlefsTagType2 tag = LITTLEFS_TYPE_NAME := by
        intro h
        rw [littlefsTagType2, LITTLEFS_TYPE_NAME] at h
        rw [littlefsTagType1, LITTLEFS_TYPE_STRUCT] at hstruct
        omega
      cases slot with
      | name => simp [LittlefsSlot.key, hno]
      | struct => simp [LittlefsSlot.key, hstruct]
    · rw [if_neg hstruct, if_neg hstruct]

theorem LittlefsKey.splice_ne {key : LittlefsKey} {tag t : ℕ} (ht : t < 2 ^ 10)
    (h : littlefsTagType1 tag = LITTLEFS_TYPE_SPLICE) :
    ¬ key.mask &&& tag = key.mask &&& littlefsMktag key.type t 0 := by
  rw [key.match_iff ht]
  rintro ⟨-, hhas⟩
  rcases key.has_type hhas with htype | htype
  · exact absurd (h.symm.trans htype) (by decide)
  · exact absurd (h.symm.trans htype) (by decide)

theorem LittlefsKey.not_ccrc {key : LittlefsKey} {tag : ℕ} (h : key.has tag = true) :
    littlefsTagType2 tag ≠ LITTLEFS_TYPE_CCRC := by
  intro hccrc
  have htype := key.has_type h
  rw [type1_of_ccrc hccrc] at htype
  rcases htype with htype | htype <;> exact absurd htype (by decide)

theorem add32_littlefsShift {tag g : ℕ} (htag : tag < 2 ^ 31) (hg : g < 2 ^ 10) :
    add32 tag (littlefsShift g (littlefsTagId tag)) = littlefsSetId tag g := by
  have hid : littlefsTagId tag < 2 ^ 10 := Nat.mod_lt _ (by decide)
  have hle : littlefsTagId tag * 2 ^ 10 ≤ tag := by
    rw [littlefsTagId]
    omega
  rw [add32, littlefsShift, littlefsSetId]
  omega

theorem littlefsShift_pred {g t : ℕ} (hg : g < 2 ^ 10) (ht : t < 2 ^ 10) (hpos : 0 < t) :
    add32 (littlefsShift g t) (1 * 2 ^ 10) = littlefsShift g (t - 1) := by
  rw [add32, littlefsShift, littlefsShift]
  omega

theorem littlefsShift_succ {g t : ℕ} (hg : g < 2 ^ 10) (ht : t + 1 < 2 ^ 10) :
    add32 (littlefsShift g t) ((2 ^ 32 - 1) * 2 ^ 10) = littlefsShift g (t + 1) := by
  rw [add32, littlefsShift, littlefsShift]
  omega

theorem littlefsReplay_le_reach {log : List (ℕ × ℕ)} {es : List LittlefsEntry}
    (h : littlefsReplay log.reverse = some es) : es.length ≤ littlefsReach log := by
  induction log generalizing es with
  | nil =>
    obtain rfl := Option.some.inj h
    exact Nat.zero_le _
  | cons r log ih =>
    have hcount := (littlefsReplay_length h).2
    rw [littlefsReplay_cons, Option.bind_eq_some_iff] at h
    obtain ⟨old, hold, hedit⟩ := h
    have hle := ih hold
    have hcountOld := (littlefsReplay_length hold).2
    obtain ⟨off, tag⟩ := r
    rw [← hcount, littlefsReach]
    by_cases hname : littlefsTagType1 tag = LITTLEFS_TYPE_NAME
    · rw [littlefsCount, if_pos hname, if_pos hname]
      rcases littlefsEdit_cases hedit with ⟨-, hid, hmax, -⟩ | ⟨h, -⟩ | ⟨h, -⟩ | ⟨h, -⟩ | ⟨h, -⟩
      · split_ifs <;> omega
      · exact absurd (hname.symm.trans h) (by decide)
      · exact absurd (hname.symm.trans h) (by decide)
      · exact absurd (hname.symm.trans h) (by decide)
      · exact absurd hname h
    · by_cases hsplice : littlefsTagType1 tag = LITTLEFS_TYPE_SPLICE
      · rw [if_neg hname, if_pos hsplice]
        exact Nat.le_max_right _ _
      · rw [littlefsCount, if_neg hname, if_neg hsplice, if_neg hname, if_neg hsplice, hcountOld]
        exact hle

section Walk

variable {data : LittlefsData} {mdir : LittlefsMdir} {blk : Buf} {goff gsize : ℕ}
  (hpair : mdir.pair.1 < data.blockCount) (hblk : data.block mdir.pair.1 = .ok blk)
include hpair hblk

theorem littlefsMread_eq {off size : ℕ} (h : off + size ≤ data.blockSize) :
    littlefsMread data mdir.pair.1 off size = .ok (blk.from off) := by
  rw [littlefsMread, if_neg (Nat.not_le.mpr hpair), hblk]
  exact if_neg (by omega)

section Step

variable {gmask gtag fuel off ptag tag ntag gdiff gdiff' : ℕ} (hmask : littlefsTagId gmask ≠ 0)
  (hoff : 4 ≤ off) (hlt : tag < 2 ^ 31) (htag : tag = lostBe32 blk off ^^^ ptag)
  (hntag : ntag % 2 ^ 31 = tag) (hfit : off + littlefsTagDsize tag ≤ data.blockSize)
include hmask hoff hlt htag hntag hfit

/-- One round of the walk back, at the newest tag of a log that is not the creation of the entry. -/
theorem littlefsSliceLoop_step
    (hgdiff : (if littlefsTagType1 tag = LITTLEFS_TYPE_SPLICE
        ∧ littlefsTagId tag ≤ littlefsTagId (sub32 gtag gdiff) then
      add32 gdiff (littlefsTagSplice ntag * 2 ^ 10) else gdiff) = gdiff')
    (hcreated : ¬ ((littlefsTagType1 tag = LITTLEFS_TYPE_SPLICE
        ∧ littlefsTagId tag ≤ littlefsTagId (sub32 gtag gdiff))
      ∧ ntag = littlefsMktag LITTLEFS_TYPE_CREATE (littlefsTagId (sub32 gtag gdiff)) 0)) :
    littlefsSliceLoop data mdir gmask gtag goff gsize (fuel + 1) (off + littlefsTagDsize tag)
      ntag gdiff
      = if gmask &&& ntag = gmask &&& sub32 gtag gdiff' then
          if littlefsTagIsdelete tag then .noent
          else .ok (add32 ntag gdiff', littlefsPayload blk off tag goff gsize)
        else littlefsSliceLoop data mdir gmask gtag goff gsize fuel off (ptag % 2 ^ 31) gdiff' := by
  have hmod : ntag % 2 ^ 31 = tag % 2 ^ 31 := by rw [hntag, Nat.mod_eq_of_lt hlt]
  obtain ⟨htype, -, hid⟩ := littlefsTag_congr hmod
  have hdsize := littlefsTagDsize_congr hmod
  have hlow : ntag % 2 ^ 10 = tag % 2 ^ 10 := by omega
  have hsize : littlefsTagSize ntag = littlefsTagSize tag := hlow
  have hdelete : littlefsTagIsdelete ntag = littlefsTagIsdelete tag := by
    rw [littlefsTagIsdelete, littlefsTagIsdelete, hlow]
  have hpos := four_le_littlefsTagDsize tag
  have hprev : (lostBe32 (blk.from off) 0 ^^^ ntag) % 2 ^ 31 = ptag % 2 ^ 31 := by
    have hraw : lostBe32 (blk.from off) 0 = lostBe32 blk off := by
      simp [lostBe32, lostBe16, byteAt, Nat.add_assoc]
    have hchain : lostBe32 blk off = tag ^^^ ptag := by
      rw [htag, Nat.xor_assoc, Nat.xor_self, Nat.xor_zero]
    rw [hraw, hchain, Nat.xor_mod_two_pow, Nat.xor_mod_two_pow, hmod, Nat.xor_comm (tag % 2 ^ 31),
      Nat.xor_assoc, Nat.xor_self, Nat.xor_zero]
  rw [littlefsSliceLoop, hdsize, if_neg (by omega)]
  simp only [Nat.add_sub_cancel]
  rw [littlefsMread_eq hpair hblk (by omega)]
  simp only [hmask, not_false_eq_true, ne_eq, true_and, htype, hid, hprev, hdelete, hsize]
  rw [if_neg hcreated, hgdiff]
  -- the payload of a tag that is not deleted lies before the next tag
  by_cases hgone : littlefsTagIsdelete tag = true
  · simp only [hgone, if_true]
  · have hlen : littlefsTagDsize tag = 4 + littlefsTagSize tag := by
      rw [littlefsTagDsize, if_neg hgone, Nat.add_zero]
    simp only [hgone, Bool.false_eq_true, if_false]
    congr 1
    rw [littlefsPayload]
    by_cases hdiff : min (littlefsTagSize tag - goff) gsize = 0
    · rw [if_pos hdiff, hdiff, List.range_zero, List.map_nil, List.nil_append, Nat.sub_zero]
    · rw [if_neg hdiff, littlefsMread_eq hpair hblk (by omega)]
      rfl

omit htag in
theorem littlefsSliceLoop_created (hcreated : (littlefsTagType1 tag = LITTLEFS_TYPE_SPLICE
      ∧ littlefsTagId tag ≤ littlefsTagId (sub32 gtag gdiff))
    ∧ ntag = littlefsMktag LITTLEFS_TYPE_CREATE (littlefsTagId (sub32 gtag gdiff)) 0) :
    littlefsSliceLoop data mdir gmask gtag goff gsize (fuel + 1) (off + littlefsTagDsize tag)
      ntag gdiff
      = .noent := by
  have hmod : ntag % 2 ^ 31 = tag % 2 ^ 31 := by rw [hntag, Nat.mod_eq_of_lt hlt]
  obtain ⟨htype, -, hid⟩ := littlefsTag_congr hmod
  have hpos := four_le_littlefsTagDsize tag
  rw [littlefsSliceLoop, littlefsTagDsize_congr hmod, if_neg (by omega)]
  simp only [Nat.add_sub_cancel]
  rw [littlefsMread_eq hpair hblk (by omega)]
  simp only [hmask, not_false_eq_true, ne_eq, true_and, htype, hid]
  exact if_pos hcreated

end Step

section Round

variable {key : LittlefsKey} {g t fuel off ptag tag ntag : ℕ} (hg : g < 2 ^ 10) (ht : t < 2 ^ 10)
  (hoff : 4 ≤ off) (hlt : tag < 2 ^ 31) (htag : tag = lostBe32 blk off ^^^ ptag)
  (hntag : ntag % 2 ^ 31 = tag) (hplain : littlefsTagType2 tag ≠ LITTLEFS_TYPE_CCRC → ntag = tag)
  (hfit : off + littlefsTagDsize tag ≤ data.blockSize)
include hg ht hoff hlt htag hntag hplain hfit

theorem littlefsSliceLoop_plain (h : littlefsTagType1 tag ≠ LITTLEFS_TYPE_SPLICE) :
    (littlefsTagId tag = t → key.has tag = true →
      littlefsSliceLoop data mdir key.mask
        (littlefsMktag key.type g 0)
          goff gsize (fuel + 1) (off + littlefsTagDsize tag) ntag (littlefsShift g t)
        = littlefsFound blk goff gsize g (littlefsKept off tag))
      ∧ (¬ (littlefsTagId tag = t ∧ key.has tag = true) →
        littlefsSliceLoop data mdir key.mask
            (littlefsMktag key.type g 0) goff gsize (fuel + 1)
            (off + littlefsTagDsize tag) ntag (littlefsShift g t)
          = littlefsSliceLoop data mdir key.mask
            (littlefsMktag key.type g 0) goff gsize fuel off (ptag % 2 ^ 31)
            (littlefsShift g t)) := by
  have hmask := key.mask_id
  have hmod : ntag % 2 ^ 31 = tag % 2 ^ 31 := by rw [hntag, Nat.mod_eq_of_lt hlt]
  have hmatch : key.mask &&& ntag
        = key.mask &&& littlefsMktag key.type t 0
      ↔ littlefsTagId tag = t ∧ key.has tag = true := by
    rw [key.match_iff ht, (littlefsTag_congr hmod).2.2, key.has_congr hmod]
  have hround : ∀ fuel, littlefsSliceLoop data mdir key.mask
      (littlefsMktag key.type g 0) goff gsize (fuel + 1) (off + littlefsTagDsize tag)
      ntag (littlefsShift g t) = _ := fun fuel =>
    littlefsSliceLoop_step hpair hblk hmask hoff hlt htag hntag hfit (if_neg fun h' => h h'.1)
      fun h' => h h'.1.1
  rw [hround, sub32_littlefsShift hg ht]
  refine ⟨fun hid hslot => ?_, fun hnot => if_neg fun h' => hnot (hmatch.mp h')⟩
  rw [if_pos (hmatch.mpr ⟨hid, hslot⟩), littlefsKept]
  by_cases hgone : littlefsTagIsdelete tag = true
  · rw [if_pos hgone, if_pos hgone]
    rfl
  · have hself : ntag = tag := hplain (LittlefsKey.not_ccrc hslot)
    rw [if_neg hgone, if_neg hgone, hself, ← hid, add32_littlefsShift hlt hg]
    rfl

theorem littlefsSliceLoop_create (h : littlefsTagType1 tag = LITTLEFS_TYPE_SPLICE)
    (hcreate : tag = littlefsMktag LITTLEFS_TYPE_CREATE (littlefsTagId tag) 0) :
    littlefsSliceLoop data mdir key.mask (littlefsMktag key.type g 0)
        goff gsize (fuel + 1) (off + littlefsTagDsize tag) ntag (littlefsShift g t)
      = if t = littlefsTagId tag then .noent
        else littlefsSliceLoop data mdir key.mask
          (littlefsMktag key.type g 0) goff gsize fuel off (ptag % 2 ^ 31)
          (littlefsShift g (if littlefsTagId tag < t then t - 1 else t)) := by
  have hmask := key.mask_id
  have hself : ntag = tag := by
    refine hplain fun hccrc => ?_
    rw [type1_of_ccrc hccrc] at h
    exact absurd h (by decide)
  have hwant : littlefsTagId (sub32 (littlefsMktag key.type g 0)
    (littlefsShift g t)) = t := by
    rw [sub32_littlefsShift hg ht, littlefsTagId_mktag ht]
  have hcreated : ntag = littlefsMktag LITTLEFS_TYPE_CREATE t 0 ↔ t = littlefsTagId tag := by
    rw [hself]
    constructor
    · intro heq
      rw [heq, littlefsTagId_mktag ht]
    · intro heq
      rw [heq]
      exact hcreate
  rcases Nat.lt_trichotomy (littlefsTagId tag) t with hlow | heq | hhigh
  · have hgdiff : (if littlefsTagType1 tag = LITTLEFS_TYPE_SPLICE ∧ littlefsTagId tag
          ≤ littlefsTagId (sub32 (littlefsMktag key.type g 0)
            (littlefsShift g t)) then
        add32 (littlefsShift g t) (littlefsTagSplice ntag * 2 ^ 10) else littlefsShift g t)
        = littlefsShift g (t - 1) := by
      rw [hwant, if_pos ⟨h, Nat.le_of_lt hlow⟩, hself, littlefsTagSplice_create hcreate,
        littlefsShift_pred hg ht (by omega)]
    rw [littlefsSliceLoop_step hpair hblk hmask hoff hlt htag hntag hfit hgdiff
        (fun h' => absurd (hcreated.mp (hwant ▸ h'.2)) (by omega)), hself,
      sub32_littlefsShift hg (by omega), if_neg (LittlefsKey.splice_ne (by omega) h),
      if_neg (by omega), if_pos hlow]
  · rw [if_pos heq.symm]
    refine littlefsSliceLoop_created hpair hblk hmask hoff hlt hntag hfit ?_
    rw [hwant]
    exact ⟨⟨h, Nat.le_of_eq heq⟩, hcreated.mpr heq.symm⟩
  · have hgdiff : (if littlefsTagType1 tag = LITTLEFS_TYPE_SPLICE ∧ littlefsTagId tag
          ≤ littlefsTagId (sub32 (littlefsMktag key.type g 0)
            (littlefsShift g t)) then
        add32 (littlefsShift g t) (littlefsTagSplice ntag * 2 ^ 10) else littlefsShift g t)
        = littlefsShift g t := by
      rw [hwant]
      exact if_neg fun h' => absurd h'.2 (by omega)
    rw [littlefsSliceLoop_step hpair hblk hmask hoff hlt htag hntag hfit hgdiff
        (fun h' => absurd (hcreated.mp (hwant ▸ h'.2)) (by omega)), hself,
      sub32_littlefsShift hg ht, if_neg (LittlefsKey.splice_ne ht h), if_neg (by omega),
      if_neg (by omega)]

theorem littlefsSliceLoop_delete (h : littlefsTagType1 tag = LITTLEFS_TYPE_SPLICE)
    (hdelete : littlefsTagType3 tag = LITTLEFS_TYPE_DELETE) (ht' : t + 1 < 2 ^ 10) :
    littlefsSliceLoop data mdir key.mask (littlefsMktag key.type g 0)
        goff gsize (fuel + 1) (off + littlefsTagDsize tag) ntag (littlefsShift g t)
      = littlefsSliceLoop data mdir key.mask
        (littlefsMktag key.type g 0) goff gsize fuel off (ptag % 2 ^ 31)
        (littlefsShift g (if littlefsTagId tag ≤ t then t + 1 else t)) := by
  have hmask := key.mask_id
  have hself : ntag = tag := by
    refine hplain fun hccrc => ?_
    rw [type1_of_ccrc hccrc] at h
    exact absurd h (by decide)
  have hnot : ¬ tag = littlefsMktag LITTLEFS_TYPE_CREATE t 0 := by
    intro heq
    rw [heq, littlefsTagType3, littlefsMktag, LITTLEFS_TYPE_CREATE, LITTLEFS_TYPE_DELETE] at hdelete
    omega
  have hwant : littlefsTagId (sub32 (littlefsMktag key.type g 0)
    (littlefsShift g t)) = t := by
    rw [sub32_littlefsShift hg ht, littlefsTagId_mktag ht]
  have hgdiff : (if littlefsTagType1 tag = LITTLEFS_TYPE_SPLICE ∧ littlefsTagId tag
        ≤ littlefsTagId (sub32 (littlefsMktag key.type g 0) (littlefsShift g t)) then
      add32 (littlefsShift g t) (littlefsTagSplice ntag * 2 ^ 10) else littlefsShift g t)
      = littlefsShift g (if littlefsTagId tag ≤ t then t + 1 else t) := by
    rw [hwant]
    by_cases hle : littlefsTagId tag ≤ t
    · rw [if_pos ⟨h, hle⟩, if_pos hle, hself, littlefsTagSplice_delete hdelete,
        littlefsShift_succ hg ht']
    · rw [if_neg (fun h' => hle h'.2), if_neg hle]
  have hlt' : (if littlefsTagId tag ≤ t then t + 1 else t) < 2 ^ 10 := by
    split_ifs
    · exact ht'
    · exact ht
  rw [littlefsSliceLoop_step hpair hblk hmask hoff hlt htag hntag hfit hgdiff
      (fun h' => hnot (by rw [← hself, h'.2, hwant])), hself, sub32_littlefsShift hg hlt',
    if_neg (LittlefsKey.splice_ne hlt' h)]

end Round

/-- The walk back over a log finds what the edits leave at the position. -/
theorem littlefsSliceLoop_eq {key : LittlefsKey} {g : ℕ} (hg : g < 2 ^ 10) {log : List (ℕ × ℕ)}
    {off ptag : ℕ} (hlog : LittlefsLog blk log off ptag)
    (hfit : off + littlefsTagDsize ptag ≤ data.blockSize) {es : List LittlefsEntry}
    (hes : littlefsReplay log.reverse = some es) {later t : ℕ} (ht : t < es.length + later)
    (hreach : littlefsReach log + later ≤ 0x400) {ntag fuel : ℕ}
    (hntag : ntag % 2 ^ 31 = ptag % 2 ^ 31) (hplain : littlefsTagType2 ptag ≠ LITTLEFS_TYPE_CCRC →
      log ≠ [] → ntag = ptag) (hfuel : off + littlefsTagDsize ptag ≤ fuel) :
    littlefsSliceLoop data mdir key.mask (littlefsMktag key.type g 0)
        goff gsize fuel (off + littlefsTagDsize ptag) ntag (littlefsShift g t)
      = littlefsFound blk goff gsize g (EditLog.lookBack (log.flatMap (key.edits)) t) := by
  induction hlog generalizing es later t ntag fuel with
  | nil =>
    have hdsize := littlefsTagDsize_congr hntag
    have hfour : littlefsTagDsize LITTLEFS_TAG_INVALID = 4 := by decide
    cases fuel with
    | zero => rfl
    | succ fuel =>
      rw [littlefsSliceLoop, if_pos (by omega)]
      rfl
  | @cons log off ptag tag hlog htag hvalid ih =>
    have hmodNext := littlefsNext_mod tag
    have hntag' : ntag % 2 ^ 31 = tag := by rw [hntag, hmodNext, Nat.mod_eq_of_lt hvalid]
    have hdsize : littlefsTagDsize (littlefsNext tag) = littlefsTagDsize tag :=
      littlefsTagDsize_congr hmodNext
    have hpos := four_le_littlefsTagDsize ptag
    have hpos' := four_le_littlefsTagDsize tag
    rw [hdsize] at hfit hfuel ⊢
    obtain ⟨fuel, rfl⟩ : ∃ n, fuel = n + 1 := ⟨fuel - 1, by omega⟩
    have hlen := littlefsReplay_le_reach hes
    have ht' : t < 2 ^ 10 := by omega
    have hprev : ∀ {t' : ℕ} {old : List LittlefsEntry} {later' : ℕ},
        littlefsReplay log.reverse = some old → t' < old.length + later' →
        littlefsReach log + later' ≤ 0x400 →
        littlefsSliceLoop data mdir key.mask
            (littlefsMktag key.type g 0) goff gsize fuel
              (off + littlefsTagDsize ptag)
            (ptag % 2 ^ 31) (littlefsShift g t')
          = littlefsFound blk goff gsize g
            (EditLog.lookBack (log.flatMap (key.edits)) t') := by
      intro t' old later' hold hlt hle
      refine ih (by omega) hold hlt hle (Nat.mod_mod _ _) (fun hccrc hne => ?_) (by omega)
      cases hlog with
      | nil => exact absurd rfl hne
      | @cons log off ptag tag hlog htag hvalid =>
        have hself : littlefsNext tag = tag := by
          refine if_neg fun h => hccrc ?_
          rw [(littlefsTag_congr (littlefsNext_mod tag)).2.1, h]
        rw [hself, Nat.mod_eq_of_lt hvalid]
    have hntagTag : littlefsTagType2 tag ≠ LITTLEFS_TYPE_CCRC → ntag = tag := by
      intro hccrc
      have hself : littlefsNext tag = tag := if_neg hccrc
      rw [← hself]
      refine hplain ?_ (List.cons_ne_nil _ _)
      rwa [hself]
    have hlength := (littlefsReplay_length hes).2
    rw [littlefsReplay_cons, Option.bind_eq_some_iff] at hes
    obtain ⟨old, hold, hedit⟩ := hes
    have hcount := (littlefsReplay_length hold).2
    have holdReach := littlefsReplay_le_reach hold
    have hplainRound := @littlefsSliceLoop_plain _ _ _ goff gsize hpair hblk key _ _ fuel _ _ _ _
      hg ht' (by omega) hvalid htag hntag' hntagTag hfit
    rw [List.flatMap_cons, LittlefsKey.edits]
    rw [littlefsReach] at hreach
    rcases littlefsEdit_cases hedit with ⟨hname, hid, hmax, hnew⟩ | ⟨hstruct, hid, rfl⟩
      | ⟨hsplice, hcreate, hid, hlen, rfl⟩ | ⟨hsplice, hdelete, hid, rfl⟩
      | ⟨hname, hstruct, hsplice, rfl⟩
    · obtain ⟨hfound, hnext⟩ := hplainRound (by rw [hname]; decide)
      rw [littlefsCount, if_pos hname, hcount] at hlength
      rw [if_pos hname, hcount] at hreach
      -- one more position is made where the name is behind the last entry
      have hrest : ∃ later', t < old.length + later' ∧ littlefsReach log + later' ≤ 0x400 := by
        by_cases hend : old.length ≤ littlefsTagId tag
        · rw [if_pos hend] at hlength hreach
          exact ⟨later + 1, by omega, by omega⟩
        · rw [if_neg hend] at hlength hreach
          exact ⟨later, by omega, by omega⟩
      obtain ⟨later', hlow, hhigh⟩ := hrest
      rw [if_pos hname]
      by_cases hhas : key.has tag = true
      · rw [if_pos hhas, List.cons_append, List.singleton_append,
          EditLog.lookBack, EditLog.lookBack]
        by_cases ht : littlefsTagId tag = t
        · rw [hfound ht hhas, if_pos ht.symm]
        · rw [hnext fun h => ht h.1, if_neg (Ne.symm ht), hprev hold hlow hhigh]
      · rw [if_neg hhas, List.singleton_append, EditLog.lookBack,
          hnext fun h => hhas h.2, hprev hold hlow hhigh]
    · obtain ⟨hfound, hnext⟩ := hplainRound (by rw [hstruct]; decide)
      have hname : ¬ littlefsTagType1 tag = LITTLEFS_TYPE_NAME := by
        rw [hstruct]
        decide
      have hsplice : ¬ littlefsTagType1 tag = LITTLEFS_TYPE_SPLICE := by
        rw [hstruct]
        decide
      rw [if_neg hname, if_neg hsplice] at hreach
      rw [List.length_modify] at ht
      rw [if_neg hname, if_pos hstruct]
      by_cases hhas : key.has tag = true
      · rw [if_pos hhas, List.singleton_append, EditLog.lookBack]
        by_cases ht' : littlefsTagId tag = t
        · rw [hfound ht' hhas, if_pos ht'.symm]
        · rw [hnext fun h => ht' h.1, if_neg (Ne.symm ht'), hprev hold ht hreach]
      · rw [if_neg hhas, List.nil_append, hnext fun h => hhas h.2,
          hprev hold ht hreach]
    · have hname : ¬ littlefsTagType1 tag = LITTLEFS_TYPE_NAME := by
        rw [hsplice]
        decide
      have hstruct : ¬ littlefsTagType1 tag = LITTLEFS_TYPE_STRUCT := by
        rw [hsplice]
        decide
      rw [if_neg hname, if_pos hsplice] at hreach
      rw [List.length_insertIdx_of_le_length hid] at ht
      have hleft := Nat.le_max_left (littlefsReach log) (littlefsCount ((0, tag) :: log))
      rw [littlefsSliceLoop_create hpair hblk hg ht' (by omega) hvalid htag hntag' hntagTag
        hfit hsplice
        hcreate, if_neg hname, if_neg hstruct, if_pos hsplice, if_pos hcreate,
          List.singleton_append,
        EditLog.lookBack]
      by_cases heq : t = littlefsTagId tag
      · rw [if_pos heq, if_pos heq]
        rfl
      rw [if_neg heq, if_neg heq]
      by_cases hlow : littlefsTagId tag < t
      · rw [if_pos hlow, if_pos hlow, @hprev _ _ later hold (by omega) (by omega)]
      · rw [if_neg hlow, if_neg hlow, @hprev _ _ later hold (by omega) (by omega)]
    · have hname : ¬ littlefsTagType1 tag = LITTLEFS_TYPE_NAME := by
        rw [hsplice]
        decide
      have hstruct : ¬ littlefsTagType1 tag = LITTLEFS_TYPE_STRUCT := by
        rw [hsplice]
        decide
      have hcreate : ¬ tag = littlefsMktag LITTLEFS_TYPE_CREATE (littlefsTagId tag) 0 := by
        intro heq
        have hone := littlefsTagSplice_create heq
        rw [littlefsTagSplice_delete hdelete] at hone
        exact absurd hone (by decide)
      rw [if_neg hname, if_pos hsplice] at hreach
      rw [List.length_eraseIdx_of_lt hid] at ht
      have hleft := Nat.le_max_left (littlefsReach log) (littlefsCount ((0, tag) :: log))
      rw [littlefsSliceLoop_delete hpair hblk hg ht' (by omega) hvalid htag hntag' hntagTag
        hfit hsplice
        hdelete (by omega), if_neg hname, if_neg hstruct, if_pos hsplice, if_neg hcreate,
        List.singleton_append, EditLog.lookBack]
      by_cases hle : littlefsTagId tag ≤ t
      · rw [if_pos hle, if_pos hle, @hprev _ _ later hold (by omega) (by omega)]
      · rw [if_neg hle, if_neg hle, @hprev _ _ later hold (by omega) (by omega)]
    · obtain ⟨-, hnext⟩ := hplainRound hsplice
      rw [if_neg hname, if_neg hsplice] at hreach
      have hhas : ¬ key.has tag = true := fun h => (key.has_type h).elim hname hstruct
      rw [if_neg hname, if_neg hstruct, if_neg hsplice, List.nil_append, hnext fun h => hhas h.2,
        hprev hold ht hreach]

end Walk

end FsRover
