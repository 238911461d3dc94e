import FsRover.Fs.LittlefsDir
import FsRover.Fs.LittlefsLog

/-!
# Looking for a name on the way forwards

While it replays a log, the scan keeps the tag of the entry with a name: the tag moves with the
entry, and is marked when the entry goes. In a log that names every new entry once and keeps the names
in order, the tag is that of the entry with the name, and marked if there is none.

## Main definitions

* `FsRover.littlefsBest` : the best match after a log.
* `FsRover.LittlefsOrderly` : a log as littlefs writes it.

## Main results

* `FsRover.littlefsMdirScan_best` : the scan publishes the best match of the log.
* `FsRover.littlefsBest_spec` : the best match is the entry with the name.
-/

namespace FsRover

/-- What an edit of the list does to the best match. -/
def littlefsSpliceBest (tag best : ℕ) : ℕ :=
  if littlefsTagType1 tag = LITTLEFS_TYPE_SPLICE then
    if tag = littlefsMktag LITTLEFS_TYPE_DELETE (littlefsTagId best) 0 then best ||| 0x80000000
    else if best ≠ LITTLEFS_TAG_INVALID ∧ littlefsTagId tag ≤ littlefsTagId best then
      add32 best (littlefsTagSplice tag * 2 ^ 10)
    else best
  else best

/-- What a tag does to the best match. -/
def littlefsBestStep (blk : Buf) (fmask ftag : ℕ) (cb : Option (ℕ → Buf → LittlefsCmp))
    (r : ℕ × ℕ) (best : ℕ) : ℕ :=
  if littlefsTagType2 r.2 = LITTLEFS_TYPE_CCRC then best
  else
    match cb with
    | none => littlefsSpliceBest r.2 best
    | some hook =>
      if fmask &&& r.2 = fmask &&& ftag then
        littlefsScanMatch r.2 (hook r.2 (blk.from (r.1 + 4))) (littlefsSpliceBest r.2 best)
      else littlefsSpliceBest r.2 best

/-- The best match after a log, newest tag first. -/
def littlefsBest (blk : Buf) (fmask ftag : ℕ) (cb : Option (ℕ → Buf → LittlefsCmp)) (start : ℕ) :
    List (ℕ × ℕ) → ℕ
  | [] => start
  | r :: log => littlefsBestStep blk fmask ftag cb r (littlefsBest blk fmask ftag cb start log)

section Scan

variable {blockSize : ℕ} {blk : Buf} {mdir : LittlefsMdir} {fmask ftag besttag : ℕ}
  {cb : Option (ℕ → Buf → LittlefsCmp)}

/-- Where the loop of the scan is, as to the best match. -/
structure LittlefsMatched (blk : Buf) (fmask ftag : ℕ) (cb : Option (ℕ → Buf → LittlefsCmp))
    (mdir : LittlefsMdir) (besttag : ℕ) (s : LittlefsScan) : Prop where
  read : ∃ log, LittlefsLog blk log s.off s.ptag
    ∧ s.tempbesttag = littlefsBest blk fmask ftag cb besttag log
  published : (s.mdir = mdir ∧ s.besttag = besttag) ∨ ∃ log off, LittlefsLog blk log off s.mdir.etag
    ∧ s.mdir.off = off + littlefsTagDsize s.mdir.etag
    ∧ s.besttag = littlefsBest blk fmask ftag cb besttag log

theorem littlefsScanTag_best {tag : ℕ} {s s' : LittlefsScan}
    (h : littlefsScanTag blk tag s = some s') :
    s'.tempbesttag = littlefsSpliceBest tag s.tempbesttag ∧ s'.off = s.off ∧ s'.ptag = s.ptag
      ∧ s'.mdir = s.mdir ∧ s'.besttag = s.besttag := by
  rw [littlefsScanTag] at h
  rw [littlefsSpliceBest]
  by_cases hname : littlefsTagType1 tag = LITTLEFS_TYPE_NAME
  · rw [if_pos hname] at h
    obtain rfl := Option.some.inj h
    have hsplice : ¬ littlefsTagType1 tag = LITTLEFS_TYPE_SPLICE := by
      rw [hname]
      decide
    rw [if_neg hsplice]
    exact ⟨rfl, rfl, rfl, rfl, rfl⟩
  rw [if_neg hname] at h
  by_cases hsplice : littlefsTagType1 tag = LITTLEFS_TYPE_SPLICE
  · rw [if_pos hsplice] at h
    obtain rfl := Option.some.inj h
    rw [if_pos hsplice]
    exact ⟨rfl, rfl, rfl, rfl, rfl⟩
  rw [if_neg hsplice] at h ⊢
  split_ifs at h
  · obtain rfl := Option.some.inj h
    exact ⟨rfl, rfl, rfl, rfl, rfl⟩
  · obtain rfl := Option.some.inj h
    exact ⟨rfl, rfl, rfl, rfl, rfl⟩

theorem LittlefsMatched.step {s s' : LittlefsScan}
    (hs : LittlefsMatched blk fmask ftag cb mdir besttag s)
    (h : littlefsScanStep blockSize blk fmask ftag cb s = some s') :
    LittlefsMatched blk fmask ftag cb mdir besttag s' := by
  obtain ⟨⟨log, hlog, hbest⟩, hpublished⟩ := hs
  rw [littlefsScanStep] at h
  simp only at h
  generalize htag : lostBe32 blk (s.off + littlefsTagDsize s.ptag) ^^^ s.ptag = tag at h
  by_cases hstop : blockSize < s.off + littlefsTagDsize s.ptag + 4 ∨ littlefsTagIsvalid tag = false
    ∨ blockSize - (s.off + littlefsTagDsize s.ptag) < littlefsTagDsize tag
  · rw [if_pos hstop] at h
    cases h
  rw [if_neg hstop] at h
  rw [not_or, not_or, Bool.not_eq_false] at hstop
  have hlog' := LittlefsLog.cons hlog htag.symm (hlog.valid_lt _ htag hstop.2.1)
  by_cases hccrc : littlefsTagType2 tag = LITTLEFS_TYPE_CCRC
  · rw [if_pos hccrc] at h
    split_ifs at h
    obtain rfl := Option.some.inj h
    have hptag : tag ^^^ (littlefsTagChunk tag % 2 * 2 ^ 31)
      = littlefsNext tag := (if_pos hccrc).symm
    have hnext : littlefsTagDsize (littlefsNext tag) = littlefsTagDsize tag :=
      littlefsTagDsize_congr (littlefsNext_mod tag)
    have hsame : littlefsBest blk fmask ftag cb besttag
          ((s.off + littlefsTagDsize s.ptag, tag) :: log)
        = littlefsBest blk fmask ftag cb besttag log := if_pos hccrc
    rw [hptag]
    exact ⟨⟨_, hlog', hbest.trans hsame.symm⟩, .inr ⟨_, _, hlog', by simp only [hnext],
      hbest.trans hsame.symm⟩⟩
  · rw [if_neg hccrc, Option.map_eq_some_iff] at h
    obtain ⟨t, ht, rfl⟩ := h
    obtain ⟨hbest', hoff', hptag', hmdir', hbesttag'⟩ := littlefsScanTag_best ht
    have hself : littlefsNext tag = tag := if_neg hccrc
    rw [hself] at hlog'
    have hlog'' : LittlefsLog blk ((s.off + littlefsTagDsize s.ptag, tag) :: log) t.off t.ptag := by
      rw [hoff', hptag']
      exact hlog'
    rw [← hmdir', ← hbesttag'] at hpublished
    rw [hbest] at hbest'
    cases cb with
    | none =>
      refine ⟨⟨_, hlog'', hbest'.trans ?_⟩, hpublished⟩
      exact (if_neg hccrc).symm
    | some hook =>
      simp only
      by_cases hmask : fmask &&& tag = fmask &&& ftag
      · rw [if_pos hmask]
        refine ⟨⟨_, hlog'', ?_⟩, hpublished⟩
        rw [littlefsBest, littlefsBestStep, if_neg hccrc]
        simp only
        rw [if_pos hmask, hbest']
      · rw [if_neg hmask]
        refine ⟨⟨_, hlog'', ?_⟩, hpublished⟩
        rw [littlefsBest, littlefsBestStep, if_neg hccrc]
        simp only
        rw [if_neg hmask, hbest']

theorem LittlefsMatched.loop (fuel : ℕ) {s : LittlefsScan}
    (hs : LittlefsMatched blk fmask ftag cb mdir besttag s) :
    LittlefsMatched blk fmask ftag cb mdir besttag
      (littlefsScanLoop blockSize blk fmask ftag cb fuel s) := by
  induction fuel generalizing s with
  | zero => exact hs
  | succ fuel ih =>
    rw [littlefsScanLoop]
    cases hstep : littlefsScanStep blockSize blk fmask ftag cb s with
    | none => exact hs
    | some s' => exact ih (hs.step hstep)

/-- The scan publishes the best match of the log that it accepts. -/
theorem littlefsMdirScan_best {data : LittlefsData} (hsize : 4 ≤ data.blockSize)
    (hcount : mdir.pair.1 < data.blockCount) (hblk : data.block mdir.pair.1 = .ok blk)
    (hoff : mdir.off = 0)
    (haccept : (littlefsMdirScan data mdir fmask ftag cb besttag).1.off ≠ 0) :
    (littlefsMdirScan data mdir fmask ftag cb besttag).2
      = littlefsBest blk fmask ftag cb besttag (littlefsAccepted blk
        (littlefsMdirScan data mdir fmask ftag cb besttag).1.off).reverse := by
  have hread : littlefsMread data mdir.pair.1 0 4 = .ok blk := by
    rw [littlefsMread_eq hcount hblk (by omega)]
    exact congrArg Except.ok (funext fun i => by rw [Buf.from_apply, Nat.zero_add])
  have hend := @LittlefsMatched.loop data.blockSize _ _ _ _ _ _ data.blockSize _
    (⟨⟨[], .nil, rfl⟩, .inl ⟨rfl, rfl⟩⟩ : LittlefsMatched blk fmask ftag cb mdir besttag
      (.init blk mdir besttag))
  rw [littlefsMdirScan, hread] at haccept ⊢
  simp only at haccept ⊢
  obtain ⟨hmdir, -⟩ | ⟨log, off, hlog, hend, hbest⟩ := hend.published
  · rw [hmdir] at haccept
    exact absurd hoff haccept
  · rw [hbest, hend, hlog.tags_eq, List.reverse_reverse]

/-- The variables of the scan with another match. -/
def LittlefsScan.withBest (s : LittlefsScan) (b b' : ℕ) : LittlefsScan :=
  { s with tempbesttag := b, besttag := b' }

theorem littlefsScanTag_withBest {tag : ℕ} (s : LittlefsScan) (b b' : ℕ) :
    ∃ c, littlefsScanTag blk tag (s.withBest b b')
      = (littlefsScanTag blk tag s).map fun t => t.withBest c b' := by
  unfold littlefsScanTag
  by_cases hname : littlefsTagType1 tag = LITTLEFS_TYPE_NAME
  · rw [if_pos hname, if_pos hname]
    exact ⟨b, rfl⟩
  rw [if_neg hname, if_neg hname]
  by_cases hsplice : littlefsTagType1 tag = LITTLEFS_TYPE_SPLICE
  · rw [if_pos hsplice, if_pos hsplice]
    exact ⟨_, rfl⟩
  rw [if_neg hsplice, if_neg hsplice]
  by_cases htail : littlefsTagType1 tag = LITTLEFS_TYPE_TAIL
  · rw [if_pos htail, if_pos htail]
    split_ifs
    · exact ⟨b, rfl⟩
    · exact ⟨b, rfl⟩
  · rw [if_neg htail, if_neg htail]
    exact ⟨b, rfl⟩

theorem littlefsScanStep_withBest {fmask' ftag' : ℕ} {cb' : Option (ℕ → Buf → LittlefsCmp)}
    (s : LittlefsScan) (b b' : ℕ) :
    ∃ c c', littlefsScanStep blockSize blk fmask' ftag' cb' (s.withBest b b')
      = (littlefsScanStep blockSize blk fmask ftag cb s).map fun t => t.withBest c c' := by
  have hoff : (s.withBest b b').off = s.off := rfl
  have hptag : (s.withBest b b').ptag = s.ptag := rfl
  have hcrc : (s.withBest b b').crc = s.crc := rfl
  rw [littlefsScanStep, littlefsScanStep]
  simp only [hoff, hptag, hcrc]
  generalize lostBe32 blk (s.off + littlefsTagDsize s.ptag) ^^^ s.ptag = tag
  by_cases hstop : blockSize < s.off + littlefsTagDsize s.ptag + 4 ∨ littlefsTagIsvalid tag = false
    ∨ blockSize - (s.off + littlefsTagDsize s.ptag) < littlefsTagDsize tag
  · rw [if_pos hstop, if_pos hstop]
    exact ⟨b, b', rfl⟩
  rw [if_neg hstop, if_neg hstop]
  by_cases hccrc : littlefsTagType2 tag = LITTLEFS_TYPE_CCRC
  · rw [if_pos hccrc, if_pos hccrc]
    split_ifs
    · exact ⟨b, b', rfl⟩
    · exact ⟨b, b, rfl⟩
  · rw [if_neg hccrc, if_neg hccrc]
    obtain ⟨c, hc⟩ := @littlefsScanTag_withBest blk tag { s with
      off := s.off + littlefsTagDsize s.ptag
      ptag := tag
      crc := littlefsCrc (littlefsCrc s.crc blk (s.off + littlefsTagDsize s.ptag) 4) blk
        (s.off + littlefsTagDsize s.ptag + 4) (littlefsTagDsize tag - 4) } b b'
    have hstart : ∀ off ptag crc, { s.withBest b b' with off := off, ptag := ptag, crc := crc }
        = ({ s with off := off, ptag := ptag, crc := crc } : LittlefsScan).withBest b b' :=
      fun _ _ _ => rfl
    rw [hstart, hc, Option.map_map]
    cases littlefsScanTag blk tag { s with
        off := s.off + littlefsTagDsize s.ptag
        ptag := tag
        crc := littlefsCrc (littlefsCrc s.crc blk (s.off + littlefsTagDsize s.ptag) 4) blk
          (s.off + littlefsTagDsize s.ptag + 4) (littlefsTagDsize tag - 4) } with
    | none => exact ⟨b, b', rfl⟩
    | some t =>
      simp only [Option.map_some, Function.comp_apply]
      cases cb' with
      | none =>
        cases cb with
        | none => exact ⟨c, b', rfl⟩
        | some hook =>
          simp only
          split_ifs
          · exact ⟨c, b', rfl⟩
          · exact ⟨c, b', rfl⟩
      | some hook' =>
        cases cb with
        | none =>
          simp only
          split_ifs
          · exact ⟨_, b', rfl⟩
          · exact ⟨c, b', rfl⟩
        | some hook =>
          simp only
          split_ifs
          · exact ⟨_, b', rfl⟩
          · exact ⟨_, b', rfl⟩
          · exact ⟨c, b', rfl⟩
          · exact ⟨c, b', rfl⟩

theorem littlefsScanLoop_withBest {fmask' ftag' : ℕ} {cb' : Option (ℕ → Buf → LittlefsCmp)}
    (fuel : ℕ) (s : LittlefsScan) (b b' : ℕ) :
    ∃ c c', littlefsScanLoop blockSize blk fmask' ftag' cb' fuel (s.withBest b b')
      = (littlefsScanLoop blockSize blk fmask ftag cb fuel s).withBest c c' := by
  induction fuel generalizing s b b' with
  | zero => exact ⟨b, b', rfl⟩
  | succ fuel ih =>
    obtain ⟨c, c', hstep⟩ := @littlefsScanStep_withBest blockSize blk fmask ftag cb fmask' ftag' cb' s
      b b'
    rw [littlefsScanLoop, littlefsScanLoop, hstep]
    cases littlefsScanStep blockSize blk fmask ftag cb s with
    | none => exact ⟨b, b', rfl⟩
    | some t => exact ih t c c'

/-- What else the scan publishes does not depend on the match. -/
theorem littlefsMdirScan_mdir {data : LittlefsData} {fmask' ftag' besttag' : ℕ}
    {cb' : Option (ℕ → Buf → LittlefsCmp)} :
    (littlefsMdirScan data mdir fmask' ftag' cb' besttag').1
      = (littlefsMdirScan data mdir fmask ftag cb besttag).1 := by
  rw [littlefsMdirScan, littlefsMdirScan]
  cases littlefsMread data mdir.pair.1 0 4 with
  | error e => rfl
  | ok blk =>
    obtain ⟨c, c', hloop⟩ := @littlefsScanLoop_withBest data.blockSize blk fmask ftag cb fmask' ftag'
      cb' data.blockSize (.init blk mdir besttag) besttag' besttag'
    have hstart : LittlefsScan.init blk mdir besttag'
      = (LittlefsScan.init blk mdir besttag).withBest besttag' besttag' := rfl
    simp only
    rw [hstart, hloop]
    rfl

end Scan

/-! ### Masks and ids -/

theorem typeMask_eq_iff {tag : ℕ} :
    littlefsMktag 0x780 0 0 &&& tag = littlefsMktag 0x780 0 0 &&& littlefsMktag LITTLEFS_TYPE_NAME 0 0
      ↔ littlefsTagType2 tag = LITTLEFS_TYPE_NAME := by
  have hmask := testBit_mask (m := littlefsMktag 0x780 0 0) (p := fun i => 27 ≤ i ∧ i < 31)
    (by decide) (by decide) (fun i hi => by omega)
  have hzero : littlefsTagType2 (littlefsMktag LITTLEFS_TYPE_NAME 0 0) = LITTLEFS_TYPE_NAME := by
    decide
  rw [land_eq_land_iff, ← hzero, littlefsTagType2, littlefsTagType2, Nat.mul_left_inj (by decide),
    field_eq_iff]
  exact ⟨fun h i hs hw => h i ((hmask i).mpr ⟨hs, hw⟩),
    fun h i hi => h i ((hmask i).mp hi).1 ((hmask i).mp hi).2⟩

theorem fullMask_eq_iff {a b : ℕ} :
    littlefsMktag 0x7ff 0x3ff 0 &&& a = littlefsMktag 0x7ff 0x3ff 0 &&& b
      ↔ littlefsTagType3 a = littlefsTagType3 b ∧ littlefsTagId a = littlefsTagId b := by
  have hmask := testBit_mask (m := littlefsMktag 0x7ff 0x3ff 0)
    (p := fun i => (20 ≤ i ∧ i < 31) ∨ 10 ≤ i ∧ i < 20)
    (by decide) (by decide) (fun i hi => by omega)
  rw [land_eq_land_iff, littlefsTagType3, littlefsTagType3, littlefsTagId, littlefsTagId,
    field_eq_iff, field_eq_iff]
  constructor
  · intro h
    exact ⟨fun i hs hw => h i ((hmask i).mpr (.inl ⟨hs, hw⟩)),
      fun i hs hw => h i ((hmask i).mpr (.inr ⟨hs, hw⟩))⟩
  · rintro ⟨htype, hid⟩ i hi
    rcases (hmask i).mp hi with ⟨hs, hw⟩ | ⟨hs, hw⟩
    · exact htype i hs hw
    · exact hid i hs hw

theorem littlefsTagId_setId {tag k : ℕ} (hk : k < 2 ^ 10) :
    littlefsTagId (littlefsSetId tag k) = k := by
  rw [littlefsSetId, littlefsTagId, littlefsTagId]
  omega

theorem littlefsSetId_self (tag : ℕ) : littlefsSetId tag (littlefsTagId tag) = tag := by
  rw [littlefsSetId, littlefsTagId]
  omega

theorem littlefsSetId_lt {tag k : ℕ} (htag : tag < 2 ^ 31) (hk : k < 2 ^ 10) :
    littlefsSetId tag k < 2 ^ 31 := by
  rw [littlefsSetId, littlefsTagId]
  omega

theorem littlefsSetId_type {tag k : ℕ} (hk : k < 2 ^ 10) :
    littlefsTagType3 (littlefsSetId tag k) = littlefsTagType3 tag
      ∧ littlefsTagSize (littlefsSetId tag k) = littlefsTagSize tag := by
  rw [littlefsTagType3, littlefsTagType3, littlefsTagSize, littlefsTagSize, littlefsSetId,
    littlefsTagId]
  omega

theorem add32_setId_succ {tag k : ℕ} (htag : tag < 2 ^ 31) (hk : k + 1 < 2 ^ 10) :
    add32 (littlefsSetId tag k) (1 * 2 ^ 10) = littlefsSetId tag (k + 1) := by
  rw [add32, littlefsSetId, littlefsSetId, littlefsTagId]
  omega

theorem add32_setId_pred {tag k : ℕ} (htag : tag < 2 ^ 31) (hk : k < 2 ^ 10) (hpos : 0 < k) :
    add32 (littlefsSetId tag k) ((2 ^ 32 - 1) * 2 ^ 10) = littlefsSetId tag (k - 1) := by
  rw [add32, littlefsSetId, littlefsSetId, littlefsTagId]
  omega

theorem or_high_of_lt {x : ℕ} (h : x < 2 ^ 31) : x ||| 0x80000000 = 2 ^ 31 + x := by
  rw [Nat.or_comm]
  have hor := Nat.two_pow_add_eq_or_of_lt h 1
  rw [Nat.mul_one] at hor
  exact hor.symm

theorem or_high_of_le {x : ℕ} (h : x < 2 ^ 31) : (2 ^ 31 + x) ||| 0x80000000 = 2 ^ 31 + x := by
  rw [← or_high_of_lt h, Nat.or_assoc, Nat.or_self]

/-! ### Names -/

/-- The bytes of a name. -/
def littlefsNameOf (blk : Buf) (r : ℕ × ℕ) : List UInt8 :=
  (List.range (littlefsTagSize r.2)).map fun i => blk (r.1 + 4 + i)

/-- The name tag of entry `k`. -/
def littlefsNameAt (es : List LittlefsEntry) (k : ℕ) : Option (ℕ × ℕ) :=
  es[k]?.bind fun e => e .name

theorem littlefsNameMatch_eq_iff {blk : Buf} {name : List UInt8} {r : ℕ × ℕ} :
    littlefsNameMatch name r.2 (blk.from (r.1 + 4)) = .eq ↔ littlefsNameOf blk r = name := by
  rw [littlefsNameMatch, littlefsNameOf]
  generalize littlefsTagSize r.2 = size
  have hfrom : ∀ n, (List.range n).map (blk.from (r.1 + 4))
      = (List.range n).map fun i => blk (r.1 + 4 + i) := fun _ => rfl
  rw [hfrom]
  constructor
  · intro h
    split_ifs at h with hhere hlt hgt
    rw [ne_eq, not_not] at hhere
    rwa [show min name.length size = size by omega, List.take_of_length_le (by omega)] at hhere
  · intro h
    have hlen : name.length = size := by
      rw [← h, List.length_map, List.length_range]
    rw [hlen, Nat.min_self, List.take_of_length_le (by omega), if_neg (not_not.mpr h),
      if_neg (Nat.lt_irrefl _), if_neg (Nat.lt_irrefl _)]

/-- The names of the entries come in order. -/
def LittlefsInOrder (blk : Buf) (es : List LittlefsEntry) : Prop :=
  ∀ i j a b, i < j → littlefsNameAt es i = some a → littlefsNameAt es j = some b →
    littlefsNameMatch (littlefsNameOf blk b) a.2 (blk.from (a.1 + 4)) = .lt

/-- A log, newest tag first, as littlefs writes it: an entry is named once, and deleted by a tag
without payload, and the names are always in order. -/
def LittlefsOrderly (blk : Buf) : List (ℕ × ℕ) → Prop
  | [] => True
  | r :: log => LittlefsOrderly blk log ∧ ∀ es es', littlefsReplay log.reverse = some es →
    littlefsEdit es r = some es' → LittlefsInOrder blk es'
      ∧ (littlefsTagType2 r.2 = LITTLEFS_TYPE_NAME →
        littlefsNameAt es (littlefsTagId r.2) = none ∧ littlefsTagIsdelete r.2 = false)
      ∧ (littlefsTagType3 r.2 = LITTLEFS_TYPE_DELETE →
        r.2 = littlefsMktag LITTLEFS_TYPE_DELETE (littlefsTagId r.2) 0)

theorem littlefsEdit_names {es es' : List LittlefsEntry} {off tag : ℕ}
    (h : littlefsEdit es (off, tag) = some es') :
    (littlefsTagType2 tag = LITTLEFS_TYPE_NAME ∧ littlefsTagId tag < es'.length
      ∧ es.length ≤ es'.length ∧ ∀ k, littlefsNameAt es' k
        = if k = littlefsTagId tag then littlefsKept off tag else littlefsNameAt es k)
    ∨ (littlefsTagType1 tag ≠ LITTLEFS_TYPE_SPLICE ∧ littlefsTagType2 tag ≠ LITTLEFS_TYPE_NAME
      ∧ es.length ≤ es'.length ∧ ∀ k, littlefsNameAt es' k = littlefsNameAt es k)
    ∨ (littlefsTagType1 tag = LITTLEFS_TYPE_SPLICE
      ∧ tag = littlefsMktag LITTLEFS_TYPE_CREATE (littlefsTagId tag) 0
      ∧ littlefsTagId tag ≤ es.length ∧ es'.length = es.length + 1 ∧ ∀ k, littlefsNameAt es' k
        = if k < littlefsTagId tag then littlefsNameAt es k
          else if k = littlefsTagId tag then none else littlefsNameAt es (k - 1))
    ∨ (littlefsTagType1 tag = LITTLEFS_TYPE_SPLICE ∧ littlefsTagType3 tag = LITTLEFS_TYPE_DELETE
      ∧ littlefsTagId tag < es.length ∧ es'.length + 1 = es.length ∧ ∀ k, littlefsNameAt es' k
        = if k < littlefsTagId tag then littlefsNameAt es k else littlefsNameAt es (k + 1)) := by
  have htype2 : littlefsTagType2 tag = LITTLEFS_TYPE_NAME → littlefsTagType1 tag
      = LITTLEFS_TYPE_NAME := by
    intro h
    rw [littlefsTagType2, LITTLEFS_TYPE_NAME] at h
    rw [littlefsTagType1, LITTLEFS_TYPE_NAME]
    omega
  have hgrown : ∀ id, id ≤ es.length → ∀ k, littlefsNameAt (littlefsGrown es id) k
      = littlefsNameAt es k := by
    intro id hid k
    rw [littlefsGrown]
    split_ifs with hend
    · rw [littlefsNameAt, littlefsNameAt]
      rcases Nat.lt_trichotomy k es.length with hlt | rfl | hgt
      · rw [List.getElem?_append_left hlt]
      · rw [List.getElem?_append_right (Nat.le_refl _), Nat.sub_self,
          List.getElem?_eq_none (Nat.le_refl _)]
        rfl
      · have hnone : (es ++ [fun _ => none])[k]? = none := by
          refine List.getElem?_eq_none ?_
          rw [List.length_append, List.length_singleton]
          exact hgt
        rw [hnone, List.getElem?_eq_none (Nat.le_of_lt hgt)]
    · rfl
  have hlength : ∀ id, id ≤ es.length → id < (littlefsGrown es id).length
      ∧ es.length ≤ (littlefsGrown es id).length := by
    intro id hid
    rw [length_littlefsGrown]
    split_ifs <;> omega
  rcases littlefsEdit_cases h with ⟨hname, hid, hmax, rfl⟩ | ⟨hstruct, hid, rfl⟩
    | ⟨hsplice, hcreate, hid, hlen, rfl⟩ | ⟨hsplice, hdelete, hid, rfl⟩ | ⟨hname, -, hsplice, rfl⟩
  · obtain ⟨hlt, hle⟩ := hlength _ hid
    by_cases hplain : littlefsTagType2 tag = LITTLEFS_TYPE_NAME
    · rw [if_pos hplain]
      refine .inl ⟨hplain, by rwa [List.length_modify], by rwa [List.length_modify], fun k => ?_⟩
      rw [littlefsNameAt, List.getElem?_modify]
      by_cases hk : k = littlefsTagId tag
      · rw [if_pos hk, hk, List.getElem?_eq_getElem hlt]
        simp
      · rw [if_neg hk, ← hgrown _ hid k, littlefsNameAt]
        simp [Ne.symm hk]
    · rw [if_neg hplain]
      exact .inr (.inl ⟨by rw [hname]; decide, hplain, hle, hgrown _ hid⟩)
  · refine .inr (.inl ⟨by rw [hstruct]; decide, fun h => ?_, Nat.le_of_eq (List.length_modify _ _ _).symm,
      fun k => ?_⟩)
    · exact absurd (hstruct.symm.trans (htype2 h)) (by decide)
    · rw [littlefsNameAt, littlefsNameAt, List.getElem?_modify]
      cases es[k]? with
      | none => rfl
      | some e =>
        by_cases hk : littlefsTagId tag = k
        · simp [hk]
        · simp [hk]
  · refine .inr (.inr (.inl ⟨hsplice, hcreate, hid, List.length_insertIdx_of_le_length hid _,
      fun k => ?_⟩))
    rw [littlefsNameAt, littlefsNameAt, littlefsNameAt, List.getElem?_insertIdx]
    by_cases hlt : k < littlefsTagId tag
    · rw [if_pos hlt, if_pos hlt]
    rw [if_neg hlt, if_neg hlt]
    by_cases hk : k = littlefsTagId tag
    · rw [if_pos hk, if_pos hk, if_pos (by omega)]
      rfl
    · rw [if_neg hk, if_neg hk]
  · refine .inr (.inr (.inr ⟨hsplice, hdelete, hid, ?_, fun k => ?_⟩))
    · rw [List.length_eraseIdx_of_lt hid]
      omega
    · rw [littlefsNameAt, littlefsNameAt, littlefsNameAt, List.getElem?_eraseIdx]
      split_ifs <;> rfl
  · exact .inr (.inl ⟨hsplice, fun h => hname (htype2 h), Nat.le_refl _, fun _ => rfl⟩)

theorem littlefsNameAt_lt {es : List LittlefsEntry} {k : ℕ} {r : ℕ × ℕ}
    (h : littlefsNameAt es k = some r) : k < es.length := by
  by_contra hge
  rw [littlefsNameAt, List.getElem?_eq_none (Nat.not_lt.mp hge)] at h
  cases h

/-! ### The match -/

/-- The best match is the tag of the entry with the name, with the id of the entry. If there is none
it is marked, and its id does not pass the last entry. -/
def LittlefsBestIs (blk : Buf) (name : List UInt8) (es : List LittlefsEntry) (best : ℕ) : Prop :=
  (∃ k r, littlefsNameAt es k = some r ∧ littlefsNameOf blk r = name ∧ r.2 < 2 ^ 28
    ∧ best = littlefsSetId r.2 k)
  ∨ ((∀ k r, littlefsNameAt es k = some r → littlefsNameOf blk r ≠ name)
    ∧ (best = LITTLEFS_TAG_INVALID ∨ ∃ x < 2 ^ 28, best = 2 ^ 31 + x ∧ littlefsTagId x ≤ es.length))

section Best

variable {blk : Buf} {name : List UInt8} {es es' : List LittlefsEntry} {best off tag : ℕ}

theorem LittlefsInOrder.unique (horder : LittlefsInOrder blk es) {i j : ℕ} {a b : ℕ × ℕ}
    (ha : littlefsNameAt es i = some a) (hb : littlefsNameAt es j = some b)
    (hname : littlefsNameOf blk a = littlefsNameOf blk b) : i = j := by
  rcases Nat.lt_trichotomy i j with hlt | rfl | hgt
  · have hcmp := horder i j a b hlt ha hb
    rw [littlefsNameMatch_eq_iff.mpr hname] at hcmp
    cases hcmp
  · rfl
  · have hcmp := horder j i b a hgt hb ha
    rw [littlefsNameMatch_eq_iff.mpr hname.symm] at hcmp
    cases hcmp

theorem littlefsTagId_high {x : ℕ} : littlefsTagId (2 ^ 31 + x) = littlefsTagId x := by
  rw [littlefsTagId, littlefsTagId]
  omega

theorem type1_of_type2_name {tag : ℕ} (h : littlefsTagType2 tag = LITTLEFS_TYPE_NAME) :
    littlefsTagType1 tag = LITTLEFS_TYPE_NAME := by
  rw [littlefsTagType2, LITTLEFS_TYPE_NAME] at h
  rw [littlefsTagType1, LITTLEFS_TYPE_NAME]
  omega

theorem LittlefsBestIs.named (h : LittlefsBestIs blk name es best) (hmax : es'.length ≤ 0x3ff)
    (htag : tag < 2 ^ 31)
    (htype : littlefsTagType2 tag = LITTLEFS_TYPE_NAME) (hid : littlefsTagId tag < es'.length)
    (hlen : es.length ≤ es'.length) (horder : LittlefsInOrder blk es')
    (hfresh : littlefsNameAt es (littlefsTagId tag) = none)
    (hkept : littlefsTagIsdelete tag = false)
    (hnames : ∀ k, littlefsNameAt es' k
      = if k = littlefsTagId tag then littlefsKept off tag else littlefsNameAt es k) :
    LittlefsBestIs blk name es'
      (littlefsScanMatch tag (littlefsNameMatch name tag (blk.from (off + 4))) best) := by
  have hnew : littlefsNameAt es' (littlefsTagId tag) = some (off, tag) := by
    rw [hnames, if_pos rfl, littlefsKept, hkept]
    rfl
  have hold : ∀ {k r}, littlefsNameAt es k = some r → littlefsNameAt es' k = some r := by
    intro k r hk
    rw [hnames, if_neg, hk]
    rintro rfl
    rw [hfresh] at hk
    cases hk
  have hlow : tag < 2 ^ 28 := by
    rw [littlefsTagType2, LITTLEFS_TYPE_NAME] at htype
    omega
  rw [littlefsScanMatch]
  by_cases heq : littlefsNameMatch name tag (blk.from (off + 4)) = .eq
  · rw [if_pos heq]
    exact .inl ⟨littlefsTagId tag, (off, tag), hnew, (littlefsNameMatch_eq_iff (r := (off, tag))).mp heq,
      hlow, (littlefsSetId_self tag).symm⟩
  rw [if_neg heq]
  have hother : ∀ k r, littlefsNameAt es' k = some r →
      (∀ k r, littlefsNameAt es k = some r → littlefsNameOf blk r ≠ name) →
      littlefsNameOf blk r ≠ name := by
    intro k r hk hnone
    rw [hnames] at hk
    by_cases hself : k = littlefsTagId tag
    · rw [if_pos hself, littlefsKept, hkept] at hk
      obtain rfl := Option.some.inj hk
      exact fun hname => heq ((littlefsNameMatch_eq_iff (r := (off, tag))).mpr hname)
    · rw [if_neg hself] at hk
      exact hnone k r hk
  obtain ⟨k, r, hk, hname, hr, rfl⟩ | ⟨hnone, hbest⟩ := h
  · -- the match stays: the new name is of another entry, and behind it if it is greater
    have hk' := hold hk
    have hlt := littlefsNameAt_lt hk'
    have hklt : k < 2 ^ 10 := by omega
    have hne : k ≠ littlefsTagId tag := by
      rintro rfl
      rw [hfresh] at hk
      cases hk
    have hsame : ¬ littlefsMktag 0x7ff 0x3ff 0 &&& tag
        = littlefsMktag 0x7ff 0x3ff 0 &&& littlefsSetId r.2 k := by
      rw [fullMask_eq_iff, littlefsTagId_setId hklt]
      exact fun h => hne h.2.symm
    have hbehind : ¬ (littlefsNameMatch name tag (blk.from (off + 4)) = .gt
        ∧ littlefsTagId tag ≤ littlefsTagId (littlefsSetId r.2 k)) := by
      rw [littlefsTagId_setId hklt]
      rintro ⟨hgt, hle⟩
      have hcmp := horder (littlefsTagId tag) k (off, tag) r (by omega) hnew hk'
      rw [hname] at hcmp
      exact absurd (hgt.symm.trans hcmp) (by decide)
    rw [if_neg hsame, if_neg hbehind]
    exact .inl ⟨k, r, hk', hname, hr, rfl⟩
  · refine .inr ⟨fun k r hk => hother k r hk hnone, ?_⟩
    split_ifs with hsame hgt
    · exact .inl rfl
    · rw [or_high_of_lt htag]
      exact .inr ⟨tag, hlow, rfl, by omega⟩
    · obtain hbest | ⟨x, hx, hbest, hidle⟩ := hbest
      · exact .inl hbest
      · exact .inr ⟨x, hx, hbest, by omega⟩

theorem LittlefsBestIs.created (h : LittlefsBestIs blk name es best)
    (hsplice : littlefsTagType1 tag = LITTLEFS_TYPE_SPLICE)
    (hcreate : tag = littlefsMktag LITTLEFS_TYPE_CREATE (littlefsTagId tag) 0)
    (hmax : es'.length ≤ 0x3ff) (hlen : es'.length = es.length + 1)
    (hnames : ∀ k, littlefsNameAt es' k = if k < littlefsTagId tag then littlefsNameAt es k
      else if k = littlefsTagId tag then none else littlefsNameAt es (k - 1)) :
    LittlefsBestIs blk name es' (littlefsSpliceBest tag best) := by
  have hid : littlefsTagId tag < 2 ^ 10 := Nat.mod_lt _ (by decide)
  have hnot : ¬ tag = littlefsMktag LITTLEFS_TYPE_DELETE (littlefsTagId best) 0 := by
    have hlow : littlefsTagId best < 2 ^ 10 := Nat.mod_lt _ (by decide)
    intro heq
    have hchunk := littlefsTagSplice_create hcreate
    rw [heq, littlefsTagSplice, littlefsTagChunk, littlefsMktag, LITTLEFS_TYPE_DELETE] at hchunk
    split_ifs at hchunk <;> omega
  rw [littlefsSpliceBest, if_pos hsplice, if_neg hnot, littlefsTagSplice_create hcreate]
  obtain ⟨k, r, hk, hname, hr, rfl⟩ | ⟨hnone, hbest⟩ := h
  · have hlt := littlefsNameAt_lt hk
    have hne : littlefsSetId r.2 k ≠ LITTLEFS_TAG_INVALID := by
      have hsmall := @littlefsSetId_lt r.2 k (by omega) (by omega)
      intro heq
      rw [heq, LITTLEFS_TAG_INVALID] at hsmall
      omega
    rw [littlefsTagId_setId (by omega)]
    by_cases hle : littlefsTagId tag ≤ k
    · rw [if_pos ⟨hne, hle⟩, add32_setId_succ (by omega) (by omega)]
      refine .inl ⟨k + 1, r, ?_, hname, hr, rfl⟩
      rw [hnames, if_neg (by omega), if_neg (by omega), Nat.add_sub_cancel, hk]
    · rw [if_neg fun h => hle h.2]
      refine .inl ⟨k, r, ?_, hname, hr, rfl⟩
      rw [hnames, if_pos (by omega), hk]
  · refine .inr ⟨fun k r hk => ?_, ?_⟩
    · rw [hnames] at hk
      split_ifs at hk
      · exact hnone k r hk
      · exact hnone (k - 1) r hk
    · obtain rfl | ⟨x, hx, rfl, hidle⟩ := hbest
      · rw [if_neg fun h => h.1 rfl]
        exact .inl rfl
      · refine .inr ?_
        rw [littlefsTagId_high]
        split_ifs with hle
        · refine ⟨x + 2 ^ 10, ?_, ?_, ?_⟩
          · rw [littlefsTagId] at hidle
            omega
          · rw [add32]
            rw [littlefsTagId] at hidle
            omega
          · rw [littlefsTagId] at hidle ⊢
            omega
        · exact ⟨x, hx, rfl, by omega⟩

theorem LittlefsBestIs.deleted (h : LittlefsBestIs blk name es best) (horder : LittlefsInOrder blk es)
    (hsplice : littlefsTagType1 tag = LITTLEFS_TYPE_SPLICE)
    (hdelete : tag = littlefsMktag LITTLEFS_TYPE_DELETE (littlefsTagId tag) 0)
    (hmax : es.length ≤ 0x3ff) (hid : littlefsTagId tag < es.length)
    (hlen : es'.length + 1 = es.length)
    (hnames : ∀ k, littlefsNameAt es' k = if k < littlefsTagId tag then littlefsNameAt es k
      else littlefsNameAt es (k + 1)) :
    LittlefsBestIs blk name es' (littlefsSpliceBest tag best) := by
  have htype : littlefsTagType3 tag = LITTLEFS_TYPE_DELETE := by
    have hlow : littlefsTagId tag < 2 ^ 10 := Nat.mod_lt _ (by decide)
    rw [hdelete, littlefsTagType3, littlefsMktag, LITTLEFS_TYPE_DELETE]
    omega
  have hexact : ∀ i, i < 2 ^ 10 → (tag = littlefsMktag LITTLEFS_TYPE_DELETE i 0
      ↔ littlefsTagId tag = i) := by
    intro i hi
    constructor
    · intro heq
      rw [heq, littlefsTagId_mktag hi]
    · rintro rfl
      exact hdelete
  have hidOf : ∀ y, littlefsTagId y < 2 ^ 10 := fun y => Nat.mod_lt _ (by decide)
  rw [littlefsSpliceBest, if_pos hsplice, littlefsTagSplice_delete htype]
  simp only [hexact _ (hidOf best)]
  obtain ⟨k, r, hk, hname, hr, rfl⟩ | ⟨hnone, hbest⟩ := h
  · have hlt := littlefsNameAt_lt hk
    have hsmall := @littlefsSetId_lt r.2 k (by omega) (by omega)
    have hne : littlefsSetId r.2 k ≠ LITTLEFS_TAG_INVALID := by
      intro heq
      rw [heq, LITTLEFS_TAG_INVALID] at hsmall
      omega
    rw [littlefsTagId_setId (by omega)]
    rcases Nat.lt_trichotomy (littlefsTagId tag) k with hlow | heq | hhigh
    · rw [if_neg (by omega), if_pos ⟨hne, by omega⟩, add32_setId_pred (by omega) (by omega) (by omega)]
      refine .inl ⟨k - 1, r, ?_, hname, hr, rfl⟩
      rw [hnames, if_neg (by omega), Nat.sub_add_cancel (by omega), hk]
    · -- the entry itself goes, and no other one has its name
      rw [if_pos heq, or_high_of_lt hsmall]
      refine .inr ⟨fun k' r' hk' hname' => ?_, .inr ⟨_, ?_, rfl, ?_⟩⟩
      · rw [hnames] at hk'
        have hunique : ∀ {i}, littlefsNameAt es i = some r' → i = k := fun hi =>
          horder.unique hi hk (hname'.trans hname.symm)
        split_ifs at hk' with hlow
        · have hsame := hunique hk'
          omega
        · have hsame := hunique hk'
          omega
      · rw [littlefsSetId, littlefsTagId]
        omega
      · rw [littlefsTagId_setId (by omega)]
        omega
    · rw [if_neg (by omega), if_neg fun h => by omega]
      refine .inl ⟨k, r, ?_, hname, hr, rfl⟩
      rw [hnames, if_pos hhigh, hk]
  · refine .inr ⟨fun k r hk => ?_, ?_⟩
    · rw [hnames] at hk
      split_ifs at hk
      · exact hnone k r hk
      · exact hnone (k + 1) r hk
    · obtain rfl | ⟨x, hx, rfl, hidle⟩ := hbest
      · have hinvalid : littlefsTagId LITTLEFS_TAG_INVALID = 0x3ff := by decide
        rw [hinvalid, if_neg (by omega), if_neg fun h => h.1 rfl]
        exact .inl rfl
      · refine .inr ?_
        rw [littlefsTagId_high]
        split_ifs with heq hle
        · exact ⟨x, hx, or_high_of_le (by omega), by omega⟩
        · refine ⟨x - 2 ^ 10, by omega, ?_, ?_⟩
          · rw [add32]
            have hpos : 2 ^ 10 ≤ x := by
              have hle := hle.2
              rw [littlefsTagId] at hle heq
              rw [littlefsTagId] at hle heq
              omega
            omega
          · have hle := hle.2
            rw [littlefsTagId] at hidle hle heq ⊢
            rw [littlefsTagId] at hle heq
            omega
        · refine ⟨x, hx, rfl, ?_⟩
          have hhigh : ¬ littlefsTagId tag ≤ littlefsTagId x := by
            intro hle'
            refine hle ⟨?_, hle'⟩
            rw [LITTLEFS_TAG_INVALID]
            omega
          omega

/-- An edit that changes no name does not change the best match. -/
theorem LittlefsBestIs.kept (h : LittlefsBestIs blk name es best) (hlen : es.length ≤ es'.length)
    (hnames : ∀ k, littlefsNameAt es' k = littlefsNameAt es k) :
    LittlefsBestIs blk name es' best := by
  obtain ⟨k, r, hk, hrest⟩ | ⟨hnone, hbest⟩ := h
  · exact .inl ⟨k, r, by rw [hnames, hk], hrest⟩
  · refine .inr ⟨fun k r hk => hnone k r (by rw [← hnames, hk]), ?_⟩
    obtain hbest | ⟨x, hx, hbest, hid⟩ := hbest
    · exact .inl hbest
    · exact .inr ⟨x, hx, hbest, Nat.le_trans hid hlen⟩

/-- A tag of an orderly log does to the best match what it does to the entries. -/
theorem LittlefsBestIs.step (h : LittlefsBestIs blk name es best)
    (hedit : littlefsEdit es (off, tag) = some es') (htag : tag < 2 ^ 31) (hmax : es.length ≤ 0x3ff)
    (hmax' : es'.length ≤ 0x3ff) (horder : LittlefsInOrder blk es) (horder' : LittlefsInOrder blk es')
    (hfresh : littlefsTagType2 tag = LITTLEFS_TYPE_NAME →
      littlefsNameAt es (littlefsTagId tag) = none ∧ littlefsTagIsdelete tag = false)
    (hdelete : littlefsTagType3 tag = LITTLEFS_TYPE_DELETE →
      tag = littlefsMktag LITTLEFS_TYPE_DELETE (littlefsTagId tag) 0) :
    LittlefsBestIs blk name es' (littlefsBestStep blk (littlefsMktag 0x780 0 0)
      (littlefsMktag LITTLEFS_TYPE_NAME 0 0) (some (littlefsNameMatch name)) (off, tag) best) := by
  have hplain : littlefsTagType1 tag ≠ LITTLEFS_TYPE_SPLICE → littlefsSpliceBest tag best = best :=
    fun h => if_neg h
  have hsplice2 : littlefsTagType1 tag = LITTLEFS_TYPE_SPLICE →
      littlefsTagType2 tag ≠ LITTLEFS_TYPE_NAME ∧ littlefsTagType2 tag ≠ LITTLEFS_TYPE_CCRC := by
    intro hsplice
    refine ⟨fun h => ?_, fun h => ?_⟩
    · exact absurd (hsplice.symm.trans (type1_of_type2_name h)) (by decide)
    · exact absurd (hsplice.symm.trans (type1_of_ccrc h)) (by decide)
  rw [littlefsBestStep]
  simp only [typeMask_eq_iff]
  rcases littlefsEdit_names hedit with ⟨htype, hid, hlen, hnames⟩ | ⟨hsplice, htype, hlen, hnames⟩
    | ⟨hsplice, hcreate, hid, hlen, hnames⟩ | ⟨hsplice, hgone, hid, hlen, hnames⟩
  · have hccrc : ¬ littlefsTagType2 tag = LITTLEFS_TYPE_CCRC := by
      rw [htype]
      decide
    have hsplice : littlefsTagType1 tag ≠ LITTLEFS_TYPE_SPLICE := by
      rw [type1_of_type2_name htype]
      decide
    rw [if_neg hccrc, if_pos htype, hplain hsplice]
    obtain ⟨hnone, hkept⟩ := hfresh htype
    exact h.named hmax' htag htype hid hlen horder' hnone hkept hnames
  · rw [if_neg htype, hplain hsplice, ite_self]
    exact h.kept hlen hnames
  · obtain ⟨hname, hccrc⟩ := hsplice2 hsplice
    rw [if_neg hccrc, if_neg hname]
    exact h.created hsplice hcreate hmax' hlen hnames
  · obtain ⟨hname, hccrc⟩ := hsplice2 hsplice
    rw [if_neg hccrc, if_neg hname]
    exact h.deleted horder hsplice (hdelete hgone) hmax hid hlen hnames

end Best

theorem LittlefsLog.tag_lt {blk : Buf} {log : List (ℕ × ℕ)} {off ptag : ℕ}
    (h : LittlefsLog blk log off ptag) : ∀ r ∈ log, r.2 < 2 ^ 31 := by
  induction h with
  | nil => exact fun r hr => by cases hr
  | cons hlog htag hvalid ih => exact List.forall_mem_cons.mpr ⟨hvalid, ih⟩

/-- Over an orderly log the best match is the entry with the name. -/
theorem littlefsBest_spec {blk : Buf} {name : List UInt8} {log : List (ℕ × ℕ)}
    {es : List LittlefsEntry} (hes : littlefsReplay log.reverse = some es)
    (horderly : LittlefsOrderly blk log) (htags : ∀ r ∈ log, r.2 < 2 ^ 31) :
    LittlefsInOrder blk es ∧ LittlefsBestIs blk name es (littlefsBest blk (littlefsMktag 0x780 0 0)
      (littlefsMktag LITTLEFS_TYPE_NAME 0 0) (some (littlefsNameMatch name)) LITTLEFS_TAG_INVALID
      log) := by
  induction log generalizing es with
  | nil =>
    obtain rfl := Option.some.inj hes
    exact ⟨(fun i j a b _ ha => by cases ha), .inr ⟨(fun k r hk => by cases hk), .inl rfl⟩⟩
  | cons r log ih =>
    have hmax' := (littlefsReplay_length hes).1
    rw [littlefsReplay_cons, Option.bind_eq_some_iff] at hes
    obtain ⟨old, hold, hedit⟩ := hes
    have hmax := (littlefsReplay_length hold).1
    obtain ⟨hprev, hstep⟩ := horderly
    obtain ⟨horder', hfresh, hdelete⟩ := hstep old es hold hedit
    obtain ⟨horder, hbest⟩ := ih hold hprev fun r' hr' => htags r' (List.mem_cons_of_mem _ hr')
    exact ⟨horder', hbest.step hedit (htags r List.mem_cons_self) hmax hmax' horder horder' hfresh
      hdelete⟩

end FsRover
