import FsRover.Fs.LittlefsBest
import FsRover.Fs.LittlefsRead
import Mathlib.Data.List.Forall2

/-!
# A pending move

A move of an entry out of a pair that lost power takes the entry away, and the ids above it go down
by one. The walk back looks for an id above the moved one where it was, one further up; for the moved
id itself it finds nothing, though the entry that was behind it has that id now. That entry is missed.

## Main definitions

* `FsRover.LittlefsFile`, `FsRover.littlefsEntryFile` : what an entry of the log is.
* `FsRover.LittlefsMoveHides` : listing and looking up are exact but for the moved entry.

## Main results

* `FsRover.littlefsDirGetinfo_eq`, `FsRover.littlefsReadInline_eq` : an entry by its id.
* `FsRover.littlefsMoveHides_iff` : when a move hides its source and nothing else.
-/

namespace FsRover

/-! ### Slices -/

theorem inline_match_iff {tag t : ℕ} (ht : t < 2 ^ 10) :
    littlefsMktag 0x7ff 0x3ff 0 &&& tag
        = littlefsMktag 0x7ff 0x3ff 0 &&& littlefsMktag LITTLEFS_TYPE_INLINESTRUCT t 0
      ↔ littlefsTagId tag = t
        ∧ decide (littlefsTagType3 tag = LITTLEFS_TYPE_INLINESTRUCT) = true := by
  have htype : littlefsTagType3 (littlefsMktag LITTLEFS_TYPE_INLINESTRUCT t 0)
      = LITTLEFS_TYPE_INLINESTRUCT := by
    rw [littlefsTagType3, littlefsMktag, LITTLEFS_TYPE_INLINESTRUCT]
    omega
  rw [fullMask_eq_iff, htype, littlefsTagId_mktag ht, decide_eq_true_eq]
  exact and_comm

theorem inline_congr {a b : ℕ} (h : a % 2 ^ 31 = b % 2 ^ 31) :
    decide (littlefsTagType3 a = LITTLEFS_TYPE_INLINESTRUCT)
      = decide (littlefsTagType3 b = LITTLEFS_TYPE_INLINESTRUCT) := by
  rw [littlefsTagType3, littlefsTagType3, show a / 2 ^ 20 % 2 ^ 11 = b / 2 ^ 20 % 2 ^ 11 by omega]

theorem type1_of_inline {tag : ℕ} (h : littlefsTagType3 tag = LITTLEFS_TYPE_INLINESTRUCT) :
    littlefsTagType1 tag = LITTLEFS_TYPE_STRUCT := by
  rw [littlefsTagType3, LITTLEFS_TYPE_INLINESTRUCT] at h
  rw [littlefsTagType1, LITTLEFS_TYPE_STRUCT]
  omega

/-- What the payload of an inline file is looked for with. -/
def littlefsInlineKey : LittlefsKey where
  mask := littlefsMktag 0x7ff 0x3ff 0
  type := LITTLEFS_TYPE_INLINESTRUCT
  has tag := littlefsTagType3 tag = LITTLEFS_TYPE_INLINESTRUCT
  type_lt := by decide
  mask_id := by decide
  match_iff := inline_match_iff
  has_congr := inline_congr
  has_type h := .inr (type1_of_inline (of_decide_eq_true h))

/-- The newest structure of an inline file is its newest inline structure. -/
theorem lookBack_inline {log : List (ℕ × ℕ)} {t : ℕ} {r : ℕ × ℕ}
    (h : EditLog.lookBack (log.flatMap LittlefsSlot.struct.key.edits) t = some r)
    (hinline : littlefsTagType3 r.2 = LITTLEFS_TYPE_INLINESTRUCT) :
    EditLog.lookBack (log.flatMap littlefsInlineKey.edits) t = some r := by
  induction log generalizing t with
  | nil => cases h
  | cons s log ih =>
    obtain ⟨off, tag⟩ := s
    rw [List.flatMap_cons, LittlefsKey.edits] at h ⊢
    by_cases hname : littlefsTagType1 tag = LITTLEFS_TYPE_NAME
    · have hstruct : ¬ littlefsTagType1 tag = LITTLEFS_TYPE_STRUCT := by
        rw [hname]
        decide
      have hhas : ¬ LittlefsSlot.struct.key.has tag = true := fun h => hstruct (of_decide_eq_true h)
      have hhas' : ¬ littlefsInlineKey.has tag = true := fun h =>
        hstruct (type1_of_inline (of_decide_eq_true h))
      rw [if_pos hname, if_neg hhas, List.singleton_append, EditLog.lookBack] at h
      rw [if_pos hname, if_neg hhas', List.singleton_append, EditLog.lookBack]
      exact ih h
    rw [if_neg hname] at h ⊢
    by_cases hstruct : littlefsTagType1 tag = LITTLEFS_TYPE_STRUCT
    · have hhas : LittlefsSlot.struct.key.has tag = true := decide_eq_true hstruct
      rw [if_pos hstruct, if_pos hhas, List.singleton_append, EditLog.lookBack] at h
      rw [if_pos hstruct]
      by_cases ht : t = littlefsTagId tag
      · rw [if_pos ht, littlefsKept] at h
        split_ifs at h with hgone
        obtain rfl := Option.some.inj h
        have hhas' : littlefsInlineKey.has tag = true := decide_eq_true hinline
        rw [if_pos hhas', List.singleton_append, EditLog.lookBack, if_pos ht, littlefsKept,
          if_neg hgone]
      · rw [if_neg ht] at h
        split_ifs
        · rw [List.singleton_append, EditLog.lookBack, if_neg ht]
          exact ih h
        · exact ih h
    rw [if_neg hstruct] at h ⊢
    by_cases hsplice : littlefsTagType1 tag = LITTLEFS_TYPE_SPLICE
    · rw [if_pos hsplice] at h ⊢
      split_ifs at h ⊢ with hcreate
      · rw [List.singleton_append, EditLog.lookBack] at h ⊢
        split_ifs at h ⊢
        · exact ih h
        · exact ih h
      · rw [List.singleton_append, EditLog.lookBack] at h ⊢
        split_ifs at h ⊢
        · exact ih h
        · exact ih h
    · rw [if_neg hsplice] at h ⊢
      exact ih h

/-- The place of an id in the log. -/
def littlefsRealId (data : LittlefsData) (mdir : LittlefsMdir) (id : ℕ) : ℕ :=
  if littlefsMoveHere data mdir = true ∧ littlefsTagId data.gtag < id then id + 1 else id

section Slice

variable {data : LittlefsData} {mdir : LittlefsMdir} {blk : Buf} {log : List (ℕ × ℕ)}
  {es : List LittlefsEntry} {key : LittlefsKey} {goff gsize id : ℕ}

theorem littlefsDirGetslice_source (hid : id < 2 ^ 10) (hmove : littlefsMoveHere data mdir = true)
    (hsource : littlefsTagId data.gtag = id) :
    littlefsDirGetslice data mdir key.mask (littlefsMktag key.type id 0) goff gsize = .noent := by
  have hmask : decide (littlefsTagId key.mask ≠ 0) = true := decide_eq_true key.mask_id
  rw [littlefsDirGetslice, hmove, hmask, littlefsTagId_mktag hid]
  exact if_pos ⟨rfl, hsource⟩

/-- The walk back finds what the replay leaves in the entry at the place of the id. -/
theorem littlefsDirGetslice_key (hpair : mdir.pair.1 < data.blockCount)
    (hblk : data.block mdir.pair.1 = .ok blk)
    (hpublished : LittlefsPublished data.blockSize blk mdir log)
    (hes : littlefsReplay log.reverse = some es) (hreach : littlefsReach log ≤ 0x3ff)
    (hid : id < es.length)
    (hother : ¬ (littlefsMoveHere data mdir = true ∧ littlefsTagId data.gtag = id)) :
    littlefsDirGetslice data mdir key.mask (littlefsMktag key.type id 0) goff gsize
      = littlefsFound blk goff gsize id
        (EditLog.lookBack (log.flatMap key.edits) (littlefsRealId data mdir id)) := by
  obtain ⟨off, hlog, hoff⟩ := hpublished.tags
  have hle := (littlefsReplay_length hes).1
  have hreal : littlefsRealId data mdir id < es.length + 1 := by
    rw [littlefsRealId]
    split_ifs <;> omega
  have hwalk := @littlefsSliceLoop_eq _ _ _ goff gsize hpair hblk key id (by omega) _ _ _ hlog
    (hoff ▸ hpublished.off_le) _ hes 1 (littlefsRealId data mdir id) hreal (by omega) mdir.etag
    mdir.off rfl (fun _ _ => rfl) (Nat.le_of_eq hoff.symm)
  have hmask : decide (littlefsTagId key.mask ≠ 0) = true := decide_eq_true key.mask_id
  rw [← hwalk, ← hoff, littlefsDirGetslice, hmask, Bool.and_true, littlefsTagId_mktag (by omega)]
  simp only
  rw [if_neg hother]
  refine congrArg _ ?_
  rw [littlefsRealId]
  split_ifs
  · rw [littlefsShift, sub32, littlefsMktag]
    omega
  · rw [littlefsShift]
    omega

theorem lookBack_slot (hes : littlefsReplay log.reverse = some es) (slot : LittlefsSlot) (t : ℕ) :
    EditLog.lookBack (log.flatMap slot.key.edits) t = es[t]?.bind fun e => e slot := by
  rw [slot.key_edits, EditLog.lookBack_eq (littlefsReplay_slot hes slot), List.getElem?_map]
  cases es[t]? <;> rfl

end Slice

/-! ### Files -/

/-- What an entry of a directory is; a file in its pair has its payload at a tag. -/
structure LittlefsFile where
  name : List UInt8
  isdir : Bool
  pair : ℕ × ℕ
  head : ℕ
  size : ℕ
  stored : Option (ℕ × ℕ)

/-- What the structure of an entry says. A structure of another kind than the name is none. -/
def littlefsStructFile (blockCount : ℕ) (blk : Buf) (name : List UInt8) (isdir : Bool)
    (r : ℕ × ℕ) : Option LittlefsFile :=
  let word := lostLe32 fun k => (littlefsPayload blk r.1 r.2 0 8).getD k 0
  if littlefsTagType3 r.2 = LITTLEFS_TYPE_DIRSTRUCT then
    if isdir then some ⟨name, true, (word 0, word 4), 0, 0, none⟩ else none
  else if littlefsTagType3 r.2 = LITTLEFS_TYPE_CTZSTRUCT then
    if LITTLEFS_FILE_MAX < word 4 ∨ (word 4 ≠ 0 ∧ blockCount ≤ word 0) ∨ isdir then none
    else some ⟨name, false, (0, 0), word 0, word 4, none⟩
  else if littlefsTagType3 r.2 = LITTLEFS_TYPE_INLINESTRUCT then
    if isdir then none else some ⟨name, false, (0, 0), 0, littlefsTagSize r.2, some r⟩
  else none

/-- What an entry of the log is, if it has a name and a structure. -/
def littlefsEntryFile (blockCount : ℕ) (blk : Buf) (e : LittlefsEntry) : Option LittlefsFile :=
  (e .name).bind fun n => (e .struct).bind
    (littlefsStructFile blockCount blk (littlefsNameOf blk n)
      (littlefsTagType3 n.2 = LITTLEFS_TYPE_DIR))

/-- The node of a file. -/
def LittlefsFile.node (f : LittlefsFile) (mdir : LittlefsMdir) (id : ℕ) : LittlefsNode where
  mdir
  pair := f.pair
  head := f.head
  size := f.size
  id
  isdir := f.isdir
  isinline := f.stored.isSome

/-- A value, or nothing. -/
def LittlefsStatus.ofOption {α : Type} : Option α → LittlefsStatus α
  | none => .noent
  | some a => .ok a

theorem littlefsStructFile_stored {blockCount : ℕ} {blk : Buf} {name : List UInt8} {isdir : Bool}
    {r s : ℕ × ℕ} {f : LittlefsFile} (h : littlefsStructFile blockCount blk name isdir r = some f)
    (hstored : f.stored = some s) :
    s = r ∧ littlefsTagType3 r.2 = LITTLEFS_TYPE_INLINESTRUCT ∧ f.size = littlefsTagSize r.2 := by
  rw [littlefsStructFile] at h
  split_ifs at h with hdir hctz hinline
  · obtain rfl := Option.some.inj h
    cases hstored
  · obtain rfl := Option.some.inj h
    cases hstored
  · obtain rfl := Option.some.inj h
    exact ⟨(Option.some.inj hstored).symm, by assumption, rfl⟩

theorem littlefsStructFile_name {blockCount : ℕ} {blk : Buf} {name : List UInt8} {isdir : Bool}
    {r : ℕ × ℕ} {f : LittlefsFile} (h : littlefsStructFile blockCount blk name isdir r = some f) :
    f.name = name := by
  rw [littlefsStructFile] at h
  split_ifs at h
  · obtain rfl := Option.some.inj h
    rfl
  · obtain rfl := Option.some.inj h
    rfl
  · obtain rfl := Option.some.inj h
    rfl

section Entry

variable {data : LittlefsData} {mdir : LittlefsMdir} {blk : Buf} {log : List (ℕ × ℕ)}
  {es : List LittlefsEntry} (hpair : mdir.pair.1 < data.blockCount)
  (hblk : data.block mdir.pair.1 = .ok blk)
  (hpublished : LittlefsPublished data.blockSize blk mdir log)
  (hes : littlefsReplay log.reverse = some es) (hreach : littlefsReach log ≤ 0x3ff)
include hpair hblk hpublished hes hreach

/-- The node of a name tag comes from the structure at the place of its id. -/
theorem littlefsFillNode_eq {nametag : ℕ} (name : List UInt8)
    (hid : littlefsTagId nametag < es.length)
    (hother : ¬ (littlefsMoveHere data mdir = true
      ∧ littlefsTagId data.gtag = littlefsTagId nametag)) :
    littlefsFillNode data mdir nametag
      = .ofOption (((es[littlefsRealId data mdir (littlefsTagId nametag)]?.bind fun e =>
        e .struct).bind (littlefsStructFile data.blockCount blk name
          (littlefsTagType3 nametag = LITTLEFS_TYPE_DIR))).map
            fun f => f.node mdir (littlefsTagId nametag)) := by
  have hle := (littlefsReplay_length hes).1
  have hslice : littlefsDirGetslice data mdir LITTLEFS_STRUCT_MASK
      (littlefsMktag LITTLEFS_TYPE_STRUCT (littlefsTagId nametag) 0) 0 8
      = littlefsFound blk 0 8 (littlefsTagId nametag)
        (es[littlefsRealId data mdir (littlefsTagId nametag)]?.bind fun e => e .struct) :=
    (@littlefsDirGetslice_key _ _ _ _ _ LittlefsSlot.struct.key 0 8 _ hpair hblk hpublished hes hreach
      hid hother).trans (congrArg _ (lookBack_slot hes _ _))
  rw [littlefsFillNode, hslice]
  cases es[littlefsRealId data mdir (littlefsTagId nametag)]?.bind fun e => e .struct with
  | none => rfl
  | some r =>
    obtain ⟨htype, hsize⟩ := @littlefsSetId_type r.2 (littlefsTagId nametag) (by omega)
    simp only [littlefsFound, htype, hsize, Option.bind_some, littlefsStructFile]
    by_cases hdir : littlefsTagType3 r.2 = LITTLEFS_TYPE_DIRSTRUCT
    · simp only [if_pos hdir, decide_eq_true_eq]
      by_cases hname : littlefsTagType3 nametag = LITTLEFS_TYPE_DIR
      · simp only [hname]
        rfl
      · simp only [if_neg hname]
        rfl
    simp only [if_neg hdir]
    by_cases hctz : littlefsTagType3 r.2 = LITTLEFS_TYPE_CTZSTRUCT
    · simp only [if_pos hctz]
      split_ifs with hbad
      · rfl
      · have hname : ¬ littlefsTagType3 nametag = LITTLEFS_TYPE_DIR := fun h =>
          hbad (.inr (.inr (decide_eq_true h)))
        simp only [hname]
        rfl
    simp only [if_neg hctz]
    by_cases hinline : littlefsTagType3 r.2 = LITTLEFS_TYPE_INLINESTRUCT
    · simp only [if_pos hinline, decide_eq_true_eq]
      by_cases hname : littlefsTagType3 nametag = LITTLEFS_TYPE_DIR
      · simp only [if_pos hname]
        rfl
      · simp only [hname]
        rfl
    · simp only [if_neg hinline]
      rfl

/-- An id stands for the entry at its place. -/
theorem littlefsDirGetinfo_eq {id : ℕ} (hid : id < es.length)
    (hother : ¬ (littlefsMoveHere data mdir = true ∧ littlefsTagId data.gtag = id))
    (hsizes : ∀ e ∈ es, ∀ r, e .name = some r → littlefsTagSize r.2 ≤ LITTLEFS_NAME_MAX) :
    littlefsDirGetinfo data mdir id
      = .ofOption ((es[littlefsRealId data mdir id]?.bind
        (littlefsEntryFile data.blockCount blk)).map fun f =>
          (f.name ++ List.replicate (LITTLEFS_NAME_MAX + 1 - f.name.length) 0, f.node mdir id)) := by
  have hle := (littlefsReplay_length hes).1
  have hslice : littlefsDirGetslice data mdir LITTLEFS_NAME_MASK
      (littlefsMktag LITTLEFS_TYPE_NAME id 0) 0 (LITTLEFS_NAME_MAX + 1)
      = littlefsFound blk 0 (LITTLEFS_NAME_MAX + 1) id
        (es[littlefsRealId data mdir id]?.bind fun e => e .name) :=
    (@littlefsDirGetslice_key _ _ _ _ _ LittlefsSlot.name.key 0 _ _ hpair hblk hpublished hes hreach
      hid hother).trans (congrArg _ (lookBack_slot hes _ _))
  rw [littlefsDirGetinfo, hslice]
  cases he : es[littlefsRealId data mdir id]? with
  | none => rfl
  | some e =>
    simp only [Option.bind_some, littlefsEntryFile]
    cases hn : e .name with
    | none => rfl
    | some r =>
      have hidSet := @littlefsTagId_setId r.2 id (by omega)
      obtain ⟨htype, -⟩ := @littlefsSetId_type r.2 id (by omega)
      have hfill := @littlefsFillNode_eq _ _ _ _ _ hpair hblk hpublished hes hreach
        (littlefsSetId r.2 id) (littlefsNameOf blk r) (by rwa [hidSet]) (by rwa [hidSet])
      have hsize := hsizes e (List.mem_of_getElem? he) r hn
      have hpayload : littlefsPayload blk r.1 r.2 0 (LITTLEFS_NAME_MAX + 1)
          = littlefsNameOf blk r
            ++ List.replicate (LITTLEFS_NAME_MAX + 1 - (littlefsNameOf blk r).length) 0 := by
        have hlen : (littlefsNameOf blk r).length = littlefsTagSize r.2 := by
          rw [littlefsNameOf, List.length_map, List.length_range]
        rw [littlefsPayload, hlen, Nat.sub_zero, Nat.min_eq_left (by omega)]
        rfl
      rw [hidSet, he, htype] at hfill
      simp only [littlefsFound, Option.bind_some] at hfill ⊢
      rw [hfill, hpayload]
      cases hfile : (e .struct).bind (littlefsStructFile data.blockCount blk (littlefsNameOf blk r)
          (littlefsTagType3 r.2 = LITTLEFS_TYPE_DIR)) with
      | none => rfl
      | some f =>
        obtain ⟨s, -, hs⟩ := Option.bind_eq_some_iff.mp hfile
        simp only [Option.map_some, LittlefsStatus.ofOption, littlefsStructFile_name hs]

/-- An inline file reads as the payload of its structure. -/
theorem littlefsReadInline_eq {id pos len : ℕ} {e : LittlefsEntry} {f : LittlefsFile} {r : ℕ × ℕ}
    (hid : id < es.length)
    (hother : ¬ (littlefsMoveHere data mdir = true ∧ littlefsTagId data.gtag = id))
    (he : es[littlefsRealId data mdir id]? = some e)
    (hf : littlefsEntryFile data.blockCount blk e = some f) (hstored : f.stored = some r) :
    littlefsReadInline data (f.node mdir id) pos len = .ok (if f.size ≤ pos then []
      else littlefsPayload blk r.1 r.2 pos (min len (f.size - pos))) := by
  obtain ⟨n, -, hbind⟩ := Option.bind_eq_some_iff.mp hf
  obtain ⟨s, hs, hstruct⟩ := Option.bind_eq_some_iff.mp hbind
  obtain ⟨rfl, hinline, hsize⟩ := littlefsStructFile_stored hstruct hstored
  have hback := lookBack_inline ((lookBack_slot hes .struct _).trans (by rw [he]; exact hs)) hinline
  have hslice : littlefsDirGetslice data mdir (littlefsMktag 0x7ff 0x3ff 0)
      (littlefsMktag LITTLEFS_TYPE_INLINESTRUCT id 0) pos (min len (f.size - pos))
      = littlefsFound blk pos (min len (f.size - pos)) id (some r) :=
    (@littlefsDirGetslice_key _ _ _ _ _ littlefsInlineKey _ _ _ hpair hblk hpublished hes hreach
      hid hother).trans (congrArg _ hback)
  rw [littlefsReadInline]
  by_cases hend : f.size ≤ pos
  · rw [if_pos hend]
    exact if_pos hend
  · rw [if_neg hend, if_neg (show ¬ (f.node mdir id).size ≤ pos from hend)]
    have hnode : littlefsDirGetslice data (f.node mdir id).mdir (littlefsMktag 0x7ff 0x3ff 0)
        (littlefsMktag LITTLEFS_TYPE_INLINESTRUCT (f.node mdir id).id 0) pos
        (min len ((f.node mdir id).size - pos))
        = littlefsFound blk pos (min len (f.size - pos)) id (some r) := hslice
    rw [hnode]
    rfl

end Entry

/-- A name in the list is of a tag that does not delete it. -/
theorem littlefsNameAt_size {log : List (ℕ × ℕ)} {es : List LittlefsEntry} {k : ℕ} {r : ℕ × ℕ}
    (hes : littlefsReplay log.reverse = some es) (h : littlefsNameAt es k = some r) :
    littlefsTagSize r.2 ≤ LITTLEFS_NAME_MAX := by
  induction log generalizing es k with
  | nil =>
    obtain rfl := Option.some.inj hes
    cases h
  | cons s log ih =>
    rw [littlefsReplay_cons, Option.bind_eq_some_iff] at hes
    obtain ⟨old, hold, hedit⟩ := hes
    obtain ⟨off, tag⟩ := s
    rcases littlefsEdit_names hedit with ⟨-, -, -, hnames⟩ | ⟨-, -, -, hnames⟩
      | ⟨-, -, -, -, hnames⟩ | ⟨-, -, -, -, hnames⟩
    · rw [hnames, littlefsKept] at h
      split_ifs at h with hself hgone
      · obtain rfl := Option.some.inj h
        rw [littlefsTagIsdelete, decide_eq_true_eq] at hgone
        rw [littlefsTagSize, LITTLEFS_NAME_MAX]
        omega
      · exact ih hold h
    · rw [hnames] at h
      exact ih hold h
    · rw [hnames] at h
      split_ifs at h
      · exact ih hold h
      · exact ih hold h
    · rw [hnames] at h
      split_ifs at h
      · exact ih hold h
      · exact ih hold h

theorem littlefsName_size {log : List (ℕ × ℕ)} {es : List LittlefsEntry}
    (hes : littlefsReplay log.reverse = some es) :
    ∀ e ∈ es, ∀ r, e .name = some r → littlefsTagSize r.2 ≤ LITTLEFS_NAME_MAX := by
  intro e he r hr
  obtain ⟨k, hk, rfl⟩ := List.getElem_of_mem he
  refine littlefsNameAt_size hes (k := k) ?_
  rw [littlefsNameAt, List.getElem?_eq_getElem hk]
  exact hr

/-! ### Listing -/

/-- What the hook or the lookup gets is the file: its name with zeros behind it, its kind, where it
is, its size, and its bytes. -/
structure LittlefsShows (data : LittlefsData) (blk : Buf) (f : LittlefsFile) (node : LittlefsNode) :
    Prop where
  isdir : node.isdir = f.isdir
  pair : node.pair = f.pair
  head : node.head = f.head
  size : node.size = f.size
  isinline : node.isinline = f.stored.isSome
  read : ∀ r, f.stored = some r → ∀ pos len, littlefsReadInline data node pos len
    = .ok (if f.size ≤ pos then [] else littlefsPayload blk r.1 r.2 pos (min len (f.size - pos)))

/-- The buffer of a name. -/
def littlefsNameBuffer (name : List UInt8) : List UInt8 :=
  name ++ List.replicate (LITTLEFS_NAME_MAX + 1 - name.length) 0

/-- What an id stands for. -/
def littlefsFileAt (data : LittlefsData) (mdir : LittlefsMdir) (blk : Buf)
    (es : List LittlefsEntry) (id : ℕ) : Option LittlefsFile :=
  if littlefsMoveHere data mdir = true ∧ littlefsTagId data.gtag = id then none
  else es[littlefsRealId data mdir id]?.bind (littlefsEntryFile data.blockCount blk)

section List

variable {data : LittlefsData} {mdir : LittlefsMdir} {blk : Buf} {log : List (ℕ × ℕ)}
  {es : List LittlefsEntry} (hpair : mdir.pair.1 < data.blockCount)
  (hblk : data.block mdir.pair.1 = .ok blk)
  (hpublished : LittlefsPublished data.blockSize blk mdir log)
  (hes : littlefsReplay log.reverse = some es) (hreach : littlefsReach log ≤ 0x3ff)
include hpair hblk hpublished hes hreach

theorem littlefsShows_node {id : ℕ} {f : LittlefsFile} (hid : id < es.length)
    (hf : littlefsFileAt data mdir blk es id = some f) :
    LittlefsShows data blk f (f.node mdir id) := by
  rw [littlefsFileAt] at hf
  split_ifs at hf with hother
  obtain ⟨e, he, hfile⟩ := Option.bind_eq_some_iff.mp hf
  exact ⟨rfl, rfl, rfl, rfl, rfl, fun r hr pos len =>
    littlefsReadInline_eq hpair hblk hpublished hes hreach hid hother he hfile hr⟩

theorem littlefsDirGetinfo_fileAt {id : ℕ} (hid : id < es.length) :
    littlefsDirGetinfo data mdir id = .ofOption ((littlefsFileAt data mdir blk es id).map fun f =>
      (littlefsNameBuffer f.name, f.node mdir id)) := by
  have hle := (littlefsReplay_length hes).1
  by_cases hother : littlefsMoveHere data mdir = true ∧ littlefsTagId data.gtag = id
  · have hslice : littlefsDirGetslice data mdir LITTLEFS_NAME_MASK
        (littlefsMktag LITTLEFS_TYPE_NAME id 0) 0 (LITTLEFS_NAME_MAX + 1) = .noent :=
      @littlefsDirGetslice_source _ _ LittlefsSlot.name.key _ _ _ (by omega) hother.1 hother.2
    rw [littlefsDirGetinfo, hslice, littlefsFileAt, if_pos hother]
    rfl
  · rw [littlefsDirGetinfo_eq hpair hblk hpublished hes hreach hid hother (littlefsName_size hes),
      littlefsFileAt, if_neg hother]
    rfl

theorem littlefsListFrom_eq {n id : ℕ} (hn : id + n ≤ es.length) :
    littlefsListFrom data mdir n id = ((List.range' id n).filterMap fun i =>
      (littlefsFileAt data mdir blk es i).map fun f =>
        (littlefsNameBuffer f.name, f.node mdir i), none) := by
  induction n generalizing id with
  | zero => rfl
  | succ n ih =>
    rw [littlefsListFrom, littlefsDirGetinfo_fileAt hpair hblk hpublished hes hreach (by omega),
      List.range'_succ]
    cases hf : littlefsFileAt data mdir blk es id with
    | none =>
      rw [List.filterMap_cons_none (by rw [hf]; rfl)]
      exact ih (by omega)
    | some f =>
      simp only [List.filterMap_cons, hf, Option.map_some, LittlefsStatus.ofOption]
      rw [ih (by omega)]

end List

theorem filterMap_range'_getElem? {α : Type} {f : ℕ → Option α} {ws : List (Option α)} {n id : ℕ}
    (h : ws.length ≤ n) (hf : ∀ j < n, f (id + j) = ws[j]?.join) :
    (List.range' id n).filterMap f = ws.filterMap fun w => w := by
  induction n generalizing ws id with
  | zero =>
    obtain rfl := List.length_eq_zero_iff.mp (Nat.le_zero.mp h)
    rfl
  | succ n ih =>
    have hhead := hf 0 (Nat.succ_pos n)
    have htail : ∀ j < n, f (id + 1 + j) = ws.tail[j]?.join := by
      intro j hj
      rw [Nat.add_assoc, Nat.add_comm 1 j, hf (j + 1) (Nat.succ_lt_succ hj), List.getElem?_tail]
    have hrest := @ih ws.tail (id + 1) (by rw [List.length_tail]; omega) htail
    rw [List.range'_succ, List.filterMap_cons, hrest, ← Nat.add_zero id, hhead]
    cases ws with
    | nil => rfl
    | cons w ws =>
      cases w with
      | none => rfl
      | some v => rfl

/-! ### Looking up -/

theorem littlefsFetchEnd_mdir {data : LittlefsData} {scanned : LittlefsMdir × ℕ} {mdir : LittlefsMdir}
    {tag : ℕ} (h : littlefsFetchEnd data scanned = .ok (mdir, tag)) : scanned.1 = mdir := by
  rw [littlefsFetchEnd] at h
  split_ifs at h
  · injection h with h
    exact (Prod.mk.inj h).1
  · injection h with h
    exact (Prod.mk.inj h).1

/-- A scan that publishes nothing leaves the match as it was. -/
theorem littlefsMdirScan_barren {data : LittlefsData} {mdir : LittlefsMdir} {fmask ftag besttag : ℕ}
    {cb : Option (ℕ → Buf → LittlefsCmp)}
    (hend : (littlefsMdirScan data mdir fmask ftag cb besttag).1.off = 0) :
    (littlefsMdirScan data mdir fmask ftag cb besttag).2 = besttag := by
  rw [littlefsMdirScan] at hend ⊢
  cases hread : littlefsMread data mdir.pair.1 0 4 with
  | error e => rfl
  | ok blk =>
    simp only [hread] at hend ⊢
    have hloop := @LittlefsMatched.loop data.blockSize _ _ _ _ _ _ data.blockSize _
      (⟨⟨[], .nil, rfl⟩, .inl ⟨rfl, rfl⟩⟩ : LittlefsMatched blk fmask ftag cb mdir besttag
        (.init blk mdir besttag))
    obtain ⟨-, hbest⟩ | ⟨log, off, -, hoff, -⟩ := hloop.published
    · exact hbest
    · rw [hend] at hoff
      have hpos := four_le_littlefsTagDsize
        (littlefsScanLoop data.blockSize blk fmask ftag cb data.blockSize
          (.init blk mdir besttag)).mdir.etag
      omega

/-- The lookup of a name scans the block that the listing scans. -/
theorem littlefsDirFetchmatch_eq {fs : LittlefsFs} {pair : ℕ × ℕ} {mdir : LittlefsMdir}
    (hfetch : littlefsDirFetch fs pair = .ok mdir) :
    ∃ start : LittlefsMdir, start.off = 0 ∧ mdir.off ≠ 0
      ∧ (∀ fmask ftag cb besttag,
        (littlefsMdirScan fs.toLittlefsData start fmask ftag cb besttag).1 = mdir)
      ∧ ∀ fmask ftag cb, littlefsDirFetchmatch fs pair fmask ftag cb
        = littlefsFetchEnd fs.toLittlefsData
          (littlefsMdirScan fs.toLittlefsData start fmask ftag cb LITTLEFS_TAG_INVALID) := by
  rw [littlefsDirFetch] at hfetch
  cases hmatch : littlefsDirFetchmatch fs pair LITTLEFS_TAG_INVALID LITTLEFS_TAG_INVALID none with
  | err e =>
    rw [hmatch] at hfetch
    cases hfetch
  | noent =>
    rw [hmatch] at hfetch
    cases hfetch
  | ok r =>
    rw [hmatch] at hfetch
    injection hfetch with hfetch
    have hend : ∀ {scanned}, littlefsFetchEnd fs.toLittlefsData scanned = .ok r →
        scanned.1 = mdir := fun h => (littlefsFetchEnd_mdir h).trans hfetch
    unfold littlefsDirFetchmatch at hmatch ⊢
    split_ifs at hmatch with hrange
    simp only [if_neg hrange]
    generalize littlefsNewerFirst fs pair = newer at hmatch ⊢
    obtain ⟨pair', rev, revTwin⟩ := newer
    simp only at hmatch ⊢
    by_cases hfirst : (littlefsMdirScan fs.toLittlefsData (.fresh pair' rev) LITTLEFS_TAG_INVALID
        LITTLEFS_TAG_INVALID none LITTLEFS_TAG_INVALID).1.off ≠ 0
    · rw [if_pos hfirst] at hmatch
      have hmdir := hend hmatch
      refine ⟨.fresh pair' rev, rfl, hmdir ▸ hfirst, fun fmask ftag cb besttag =>
        littlefsMdirScan_mdir.trans hmdir, fun fmask ftag cb => ?_⟩
      rw [@littlefsMdirScan_mdir _ LITTLEFS_TAG_INVALID LITTLEFS_TAG_INVALID LITTLEFS_TAG_INVALID
        none _ fmask ftag LITTLEFS_TAG_INVALID cb, if_pos hfirst]
    · rw [if_neg hfirst] at hmatch
      have hbarren := fun fmask ftag cb => @littlefsMdirScan_barren fs.toLittlefsData
        (.fresh pair' rev) fmask ftag LITTLEFS_TAG_INVALID cb
          (littlefsMdirScan_mdir.symm ▸ not_not.mp hfirst)
      rw [hbarren] at hmatch
      split_ifs at hmatch with hsecond
      have hmdir := hend hmatch
      refine ⟨.fresh (pair'.2, pair'.1) revTwin, rfl, hmdir ▸ hsecond, fun fmask ftag cb besttag =>
        littlefsMdirScan_mdir.trans hmdir, fun fmask ftag cb => ?_⟩
      rw [@littlefsMdirScan_mdir _ LITTLEFS_TAG_INVALID LITTLEFS_TAG_INVALID LITTLEFS_TAG_INVALID
        none _ fmask ftag LITTLEFS_TAG_INVALID cb, if_neg hfirst, hbarren,
        @littlefsMdirScan_mdir _ LITTLEFS_TAG_INVALID LITTLEFS_TAG_INVALID LITTLEFS_TAG_INVALID
        none _ fmask ftag LITTLEFS_TAG_INVALID cb, if_pos hsecond]

/-- The id of entry `k` while a move is pending. -/
def littlefsShownId (data : LittlefsData) (mdir : LittlefsMdir) (k : ℕ) : ℕ :=
  if littlefsMoveHere data mdir = true ∧ littlefsTagId data.gtag < k then k - 1 else k

theorem littlefsMovedTag_high {data : LittlefsData} {mdir : LittlefsMdir} {best : ℕ}
    (h : best = LITTLEFS_TAG_INVALID ∨ ∃ x < 2 ^ 28, best = 2 ^ 31 + x) :
    littlefsTagIsvalid (littlefsMovedTag data mdir best) = false := by
  have hinvalid : ∀ y < 2 ^ 31, littlefsTagIsvalid (2 ^ 31 + y) = false := by
    intro y hy
    rw [littlefsTagIsvalid, decide_eq_false_iff_not]
    omega
  obtain rfl | ⟨x, hx, rfl⟩ := h
  · have hor : LITTLEFS_TAG_INVALID ||| 0x80000000 = 2 ^ 31 + 0x7fffffff := by decide
    have hself : LITTLEFS_TAG_INVALID = 2 ^ 31 + 0x7fffffff := by decide
    rw [littlefsMovedTag]
    split_ifs with hmove hid hand
    · rw [hor]
      exact hinvalid _ (by decide)
    · exact absurd rfl hand.1
    · rw [hself]
      exact hinvalid _ (by decide)
    · rw [hself]
      exact hinvalid _ (by decide)
  · rw [littlefsMovedTag]
    split_ifs with hmove hid hand
    · rw [or_high_of_le (by omega)]
      exact hinvalid _ (by omega)
    · have hpos : 2 ^ 10 ≤ x := by
        have hlt := hand.2
        rw [littlefsTagId_high, littlefsTagId] at hlt
        rw [littlefsTagId] at hlt
        omega
      rw [sub32, littlefsMktag, show (2 ^ 31 + x + 2 ^ 32 - (0 * 2 ^ 20 + 1 * 2 ^ 10 + 0)) % 2 ^ 32
        = 2 ^ 31 + (x - 2 ^ 10) by omega]
      exact hinvalid _ (by omega)
    · exact hinvalid _ (by omega)
    · exact hinvalid _ (by omega)

theorem littlefsMovedTag_entry {data : LittlefsData} {mdir : LittlefsMdir} {tag k : ℕ}
    (htag : tag < 2 ^ 28) (hk : k < 2 ^ 10) :
    (littlefsMoveHere data mdir = true ∧ littlefsTagId data.gtag = k →
      littlefsTagIsvalid (littlefsMovedTag data mdir (littlefsSetId tag k)) = false)
    ∧ (¬ (littlefsMoveHere data mdir = true ∧ littlefsTagId data.gtag = k) →
      littlefsMovedTag data mdir (littlefsSetId tag k)
        = littlefsSetId tag (littlefsShownId data mdir k)) := by
  have hlt := @littlefsSetId_lt tag k (by omega) hk
  constructor
  · rintro ⟨hmove, hid⟩
    rw [littlefsMovedTag, if_pos hmove, littlefsTagId_setId hk, if_pos hid, or_high_of_lt hlt,
      littlefsTagIsvalid, decide_eq_false_iff_not]
    omega
  · intro hother
    rw [littlefsMovedTag, littlefsShownId, littlefsTagId_setId hk]
    by_cases hmove : littlefsMoveHere data mdir = true
    · rw [if_pos hmove, if_neg fun h => hother ⟨hmove, h⟩]
      by_cases hbelow : littlefsTagId data.gtag < k
      · have hne : littlefsSetId tag k ≠ LITTLEFS_TAG_INVALID := by
          rw [LITTLEFS_TAG_INVALID]
          omega
        rw [if_pos ⟨hne, hbelow⟩, if_pos ⟨hmove, hbelow⟩, sub32, littlefsMktag, littlefsSetId,
          littlefsSetId, littlefsTagId]
        omega
      · rw [if_neg fun h => hbelow h.2, if_neg fun h => hbelow h.2]
    · rw [if_neg hmove, if_neg fun h => hmove h.1]

section Find

variable {fs : LittlefsFs} {pair : ℕ × ℕ} {mdir start : LittlefsMdir} {blk : Buf}
  {es : List LittlefsEntry} {name : List UInt8}

/-- The lookup finds the node of the entry with the name, by the id it has now. -/
theorem littlefsFindPair_iff {node : LittlefsNode} (hname : name ≠ []) (hmax : es.length ≤ 0x3ff)
    (hscan : (littlefsMdirScan fs.toLittlefsData start (littlefsMktag 0x780 0 0)
      (littlefsMktag LITTLEFS_TYPE_NAME 0 0) (some (littlefsNameMatch name))
        LITTLEFS_TAG_INVALID).1 = mdir)
    (hfetch : littlefsDirFetchmatch fs pair (littlefsMktag 0x780 0 0)
        (littlefsMktag LITTLEFS_TYPE_NAME 0 0) (some (littlefsNameMatch name))
      = littlefsFetchEnd fs.toLittlefsData (littlefsMdirScan fs.toLittlefsData start
        (littlefsMktag 0x780 0 0) (littlefsMktag LITTLEFS_TYPE_NAME 0 0)
          (some (littlefsNameMatch name)) LITTLEFS_TAG_INVALID))
    (horder : LittlefsInOrder blk es)
    (hbest : LittlefsBestIs blk name es (littlefsMdirScan fs.toLittlefsData start
      (littlefsMktag 0x780 0 0) (littlefsMktag LITTLEFS_TYPE_NAME 0 0)
        (some (littlefsNameMatch name)) LITTLEFS_TAG_INVALID).2) :
    littlefsFindPair fs pair name = .ok (.inl node)
      ↔ ∃ k r, littlefsNameAt es k = some r ∧ littlefsNameOf blk r = name
        ∧ ¬ (littlefsMoveHere fs.toLittlefsData mdir = true ∧ littlefsTagId fs.gtag = k)
        ∧ littlefsFillNode fs.toLittlefsData mdir
          (littlefsSetId r.2 (littlefsShownId fs.toLittlefsData mdir k)) = .ok node := by
  rw [littlefsFindPair, hfetch]
  generalize littlefsMdirScan fs.toLittlefsData start (littlefsMktag 0x780 0 0)
    (littlefsMktag LITTLEFS_TYPE_NAME 0 0) (some (littlefsNameMatch name))
      LITTLEFS_TAG_INVALID = scanned at hscan hbest
  have hmissed : littlefsTagIsvalid (littlefsMovedTag fs.toLittlefsData mdir scanned.2) = false →
      ∀ {x : LittlefsStatus (LittlefsMdir × ℕ)}, littlefsFetchEnd fs.toLittlefsData scanned = x →
      x = .noent ∨ x = .ok (mdir, 0) := by
    intro hinvalid x hx
    rw [littlefsFetchEnd, hscan] at hx
    simp only [hinvalid, Bool.false_eq_true, if_false] at hx
    split_ifs at hx
    · exact .inl hx.symm
    · exact .inr hx.symm
  obtain ⟨k, r, hk, hname', hr, hbest⟩ | ⟨hnone, hbest⟩ := hbest
  · have hklt := littlefsNameAt_lt hk
    have honly : ∀ {k' r'}, littlefsNameAt es k' = some r' → littlefsNameOf blk r' = name →
        k' = k ∧ r' = r := by
      intro k' r' hk' hr'
      have hsame := horder.unique hk' hk (hr'.trans hname'.symm)
      subst hsame
      exact ⟨rfl, Option.some.inj (hk'.symm.trans hk)⟩
    obtain ⟨hsource, hother⟩ := @littlefsMovedTag_entry fs.toLittlefsData mdir r.2 k hr (by omega)
    rw [← hbest] at hsource hother
    by_cases hmoved : littlefsMoveHere fs.toLittlefsData mdir = true ∧ littlefsTagId fs.gtag = k
    · constructor
      · intro h
        obtain hend | hend := hmissed (hsource hmoved) rfl
        · rw [hend] at h
          cases h
        · rw [hend] at h
          simp only [ne_eq, not_true, if_false] at h
          split_ifs at h
          cases h
      · rintro ⟨k', r', hk', hr', hne, -⟩
        obtain ⟨rfl, -⟩ := honly hk' hr'
        exact absurd hmoved hne
    · have htag := hother hmoved
      have hshown : littlefsShownId fs.toLittlefsData mdir k < 2 ^ 10 := by
        rw [littlefsShownId]
        split_ifs <;> omega
      have hlt := @littlefsSetId_lt r.2 (littlefsShownId fs.toLittlefsData mdir k) (by omega) hshown
      have hvalid : littlefsTagIsvalid (littlefsSetId r.2 (littlefsShownId fs.toLittlefsData mdir k))
          = true := by
        rw [littlefsTagIsvalid, decide_eq_true_eq]
        omega
      have hend : littlefsFetchEnd fs.toLittlefsData scanned
          = .ok (mdir, littlefsSetId r.2 (littlefsShownId fs.toLittlefsData mdir k)) := by
        rw [littlefsFetchEnd, hscan]
        simp only [htag, hvalid, if_true]
      have hne : littlefsSetId r.2 (littlefsShownId fs.toLittlefsData mdir k) ≠ 0 := by
        intro hzero
        have hsize := (@littlefsSetId_type r.2 _ hshown).2
        rw [hzero] at hsize
        refine hname (hname'.symm.trans ?_)
        rw [littlefsNameOf, ← hsize]
        rfl
      rw [hend]
      simp only [if_pos hne]
      constructor
      · intro h
        refine ⟨k, r, hk, hname', hmoved, ?_⟩
        cases hfill : littlefsFillNode fs.toLittlefsData mdir
            (littlefsSetId r.2 (littlefsShownId fs.toLittlefsData mdir k)) with
        | ok node' =>
          rw [hfill] at h
          simp only at h
          injection h with h
          rw [Sum.inl.inj h]
        | noent =>
          rw [hfill] at h
          cases h
        | err e =>
          rw [hfill] at h
          cases h
      · rintro ⟨k', r', hk', hr', -, hfill⟩
        obtain ⟨rfl, rfl⟩ := honly hk' hr'
        rw [hfill]
  · constructor
    · intro h
      have hhigh : littlefsTagIsvalid (littlefsMovedTag fs.toLittlefsData mdir scanned.2) = false := by
        refine littlefsMovedTag_high ?_
        obtain hbest | ⟨x, hx, hbest, -⟩ := hbest
        · exact .inl hbest
        · exact .inr ⟨x, hx, hbest⟩
      obtain hend | hend := hmissed hhigh rfl
      · rw [hend] at h
        cases h
      · rw [hend] at h
        simp only [ne_eq, not_true, if_false] at h
        split_ifs at h
        cases h
    · rintro ⟨k, r, hk, hr, -⟩
      exact absurd hr (hnone k r hk)

end Find

/-! ### What a move hides -/

theorem forall₂_filterMap {α β : Type} {R : α → β → Prop} {f : ℕ → Option α} {g : ℕ → α → β}
    {ids : List ℕ} (h : ∀ i ∈ ids, ∀ a, f i = some a → R a (g i a)) :
    List.Forall₂ R (ids.filterMap f) (ids.filterMap fun i => (f i).map (g i)) := by
  induction ids with
  | nil => exact .nil
  | cons i ids ih =>
    have hrest := ih fun j hj => h j (List.mem_cons_of_mem _ hj)
    rw [List.filterMap_cons, List.filterMap_cons]
    cases hf : f i with
    | none => exact hrest
    | some a => exact .cons (h i List.mem_cons_self a hf) hrest

/-- The files of a directory's pair that are there while a move out of it is pending. -/
def littlefsFilesLeft (fs : LittlefsFs) (blk : Buf) (es : List LittlefsEntry) : List LittlefsFile :=
  (es.eraseIdx (littlefsTagId fs.gtag)).filterMap (littlefsEntryFile fs.blockCount blk)

/-- The move hides its source and nothing else: when the listing of a directory comes to the pair, it
gives the files that are left, in order, and goes on; a name that is found there is one of these
files, and each of them is found. -/
structure LittlefsMoveHides (fs : LittlefsFs) (pair : ℕ × ℕ) (mdir : LittlefsMdir) (blk : Buf)
    (es : List LittlefsEntry) : Prop where
  listed : ∀ rounds t t', littlefsTortoiseStep t pair = .ok t' →
    ∃ infos, List.Forall₂ (fun f info => info.1 = littlefsNameBuffer f.name
        ∧ LittlefsShows fs.toLittlefsData blk f info.2) (littlefsFilesLeft fs blk es) infos
      ∧ littlefsDirFrom fs (rounds + 1) t pair = if mdir.split then
          (infos ++ (littlefsDirFrom fs rounds t' mdir.tail).1,
            (littlefsDirFrom fs rounds t' mdir.tail).2)
        else (infos, some none)
  found : ∀ name node, name ≠ [] → littlefsFindPair fs pair name = .ok (.inl node) →
    ∃ f ∈ littlefsFilesLeft fs blk es, f.name = name ∧ LittlefsShows fs.toLittlefsData blk f node
  complete : ∀ f ∈ littlefsFilesLeft fs blk es, f.name ≠ [] → ∀ rounds t t',
    littlefsTortoiseStep t pair = .ok t' → ∃ node,
      littlefsLookupFrom fs f.name (rounds + 1) t pair = some (.ok (some node))
        ∧ LittlefsShows fs.toLittlefsData blk f node

/-- The file behind the moved one. -/
def littlefsFileBehind (fs : LittlefsFs) (blk : Buf) (es : List LittlefsEntry) :
    Option LittlefsFile :=
  es[littlefsTagId fs.gtag + 1]?.bind (littlefsEntryFile fs.blockCount blk)

theorem littlefsFilesLeft_eq (fs : LittlefsFs) (blk : Buf) (es : List LittlefsEntry) :
    littlefsFilesLeft fs blk es
      = (es.take (littlefsTagId fs.gtag)).filterMap (littlefsEntryFile fs.blockCount blk)
        ++ ((littlefsFileBehind fs blk es).toList ++ (es.drop (littlefsTagId fs.gtag + 2)).filterMap
          (littlefsEntryFile fs.blockCount blk)) := by
  rw [littlefsFilesLeft, List.eraseIdx_eq_take_drop_succ, List.filterMap_append, littlefsFileBehind]
  refine congrArg _ ?_
  by_cases hlt : littlefsTagId fs.gtag + 1 < es.length
  · rw [List.drop_eq_getElem_cons hlt, List.getElem?_eq_getElem hlt, Option.bind_some,
      List.filterMap_cons]
    cases littlefsEntryFile fs.blockCount blk es[littlefsTagId fs.gtag + 1] <;> rfl
  · rw [List.drop_eq_nil_of_le (by omega), List.drop_eq_nil_of_le (by omega),
      List.getElem?_eq_none (by omega)]
    rfl

section Hides

variable {fs : LittlefsFs} {pair : ℕ × ℕ} {mdir : LittlefsMdir} {blk : Buf}
  {es : List LittlefsEntry}

/-- The ids stand for the files that are left, but for the one behind the moved one. -/
theorem littlefsFileAt_ids (hmove : littlefsMoveHere fs.toLittlefsData mdir = true)
    (hlt : littlefsTagId fs.gtag < es.length) :
    (List.range' 0 es.length).filterMap (littlefsFileAt fs.toLittlefsData mdir blk es)
      = (es.take (littlefsTagId fs.gtag)).filterMap (littlefsEntryFile fs.blockCount blk)
        ++ (es.drop (littlefsTagId fs.gtag + 2)).filterMap
          (littlefsEntryFile fs.blockCount blk) := by
  rw [@filterMap_range'_getElem? _ _ ((es.take (littlefsTagId fs.gtag)).map
    (littlefsEntryFile fs.blockCount blk) ++ none :: (es.drop (littlefsTagId fs.gtag + 2)).map
      (littlefsEntryFile fs.blockCount blk))]
  · rw [List.filterMap_append, List.filterMap_map, List.filterMap_cons_none rfl, List.filterMap_map]
    rfl
  · rw [List.length_append, List.length_cons, List.length_map, List.length_map, List.length_take,
      List.length_drop]
    omega
  · intro j hj
    rw [Nat.zero_add, littlefsFileAt, littlefsRealId, hmove]
    have hlen : ((es.take (littlefsTagId fs.gtag)).map
        (littlefsEntryFile fs.blockCount blk)).length = littlefsTagId fs.gtag := by
      rw [List.length_map, List.length_take]
      omega
    rcases Nat.lt_trichotomy j (littlefsTagId fs.gtag) with hbelow | heq | habove
    · rw [if_neg (by omega), if_neg (by omega), List.getElem?_append_left (by omega),
        List.getElem?_map, List.getElem?_take_of_lt hbelow, List.getElem?_eq_getElem hj]
      rfl
    · rw [if_pos ⟨rfl, heq.symm⟩, List.getElem?_append_right (by omega), hlen, heq, Nat.sub_self]
      rfl
    · obtain ⟨d, rfl⟩ := Nat.exists_eq_add_of_lt habove
      rw [if_neg (by omega), if_pos ⟨rfl, habove⟩, List.getElem?_append_right (by omega), hlen,
        show littlefsTagId fs.gtag + d + 1 - littlefsTagId fs.gtag = d + 1 by omega,
        List.getElem?_cons_succ, List.getElem?_map, List.getElem?_drop,
        show littlefsTagId fs.gtag + 2 + d = littlefsTagId fs.gtag + d + 1 + 1 by omega]
      cases es[littlefsTagId fs.gtag + d + 1 + 1]? <;> rfl

theorem littlefsMdirScan_pair {data : LittlefsData} {mdir : LittlefsMdir} {fmask ftag besttag : ℕ}
    {cb : Option (ℕ → Buf → LittlefsCmp)} :
    (littlefsMdirScan data mdir fmask ftag cb besttag).1.pair = mdir.pair := by
  cases hread : littlefsMread data mdir.pair.1 0 4 with
  | error e => rw [littlefsMdirScan, hread]
  | ok buf =>
    rw [littlefsMread] at hread
    by_cases hcount : data.blockCount ≤ mdir.pair.1
    · rw [if_pos hcount] at hread
      cases hread
    rw [if_neg hcount] at hread
    cases hblk : data.block mdir.pair.1 with
    | error e =>
      rw [hblk] at hread
      cases hread
    | ok blk =>
      rw [hblk] at hread
      by_cases hout : data.blockSize < 0 ∨ data.blockSize - 0 < 4
      · simp only [if_pos hout] at hread
        cases hread
      · exact (littlefsMdirScan_spec (by omega) (Nat.not_le.mp hcount) hblk).1

/-- What a fetched pair is: a log that a scan published, in which a lookup looks for its name. -/
theorem littlefsDirFetch_published (hfetch : littlefsDirFetch fs pair = .ok mdir)
    (hblk : fs.block mdir.pair.1 = .ok blk) :
    mdir.pair.1 < fs.blockCount ∧ ∃ log, LittlefsPublished fs.blockSize blk mdir log
      ∧ littlefsAccepted blk mdir.off = log.reverse ∧ (∀ r ∈ log, r.2 < 2 ^ 31)
      ∧ ∀ name, ∃ start : LittlefsMdir,
        (littlefsMdirScan fs.toLittlefsData start (littlefsMktag 0x780 0 0)
          (littlefsMktag LITTLEFS_TYPE_NAME 0 0) (some (littlefsNameMatch name))
            LITTLEFS_TAG_INVALID).1 = mdir
        ∧ littlefsDirFetchmatch fs pair (littlefsMktag 0x780 0 0)
            (littlefsMktag LITTLEFS_TYPE_NAME 0 0) (some (littlefsNameMatch name))
          = littlefsFetchEnd fs.toLittlefsData (littlefsMdirScan fs.toLittlefsData start
            (littlefsMktag 0x780 0 0) (littlefsMktag LITTLEFS_TYPE_NAME 0 0)
              (some (littlefsNameMatch name)) LITTLEFS_TAG_INVALID)
        ∧ (littlefsMdirScan fs.toLittlefsData start (littlefsMktag 0x780 0 0)
            (littlefsMktag LITTLEFS_TYPE_NAME 0 0) (some (littlefsNameMatch name))
              LITTLEFS_TAG_INVALID).2
          = littlefsBest blk (littlefsMktag 0x780 0 0) (littlefsMktag LITTLEFS_TYPE_NAME 0 0)
            (some (littlefsNameMatch name)) LITTLEFS_TAG_INVALID log := by
  obtain ⟨start, hoff, hne, hscan, hmatch⟩ := littlefsDirFetchmatch_eq hfetch
  have hpair : mdir.pair = start.pair := by
    rw [← hscan 0 0 none 0]
    exact littlefsMdirScan_pair
  rw [hpair] at hblk ⊢
  obtain ⟨hsize, hcount⟩ := littlefsMdirScan_readable hblk hoff ((hscan 0 0 none 0).symm ▸ hne)
  have hspec := @littlefsMdirScan_spec _ _ 0 0 none 0 _ hsize hcount hblk
  rw [hscan] at hspec
  obtain ⟨-, hsame | ⟨log, hpublished⟩⟩ := hspec
  · exact absurd (hsame ▸ hoff) hne
  obtain ⟨off, hlog, hend⟩ := hpublished.tags
  have htags : littlefsAccepted blk mdir.off = log.reverse := by
    rw [hend, hlog.tags_eq]
  refine ⟨hcount, log, hpublished, htags, hlog.tag_lt, fun name =>
    ⟨start, hscan _ _ _ _, hmatch _ _ _, ?_⟩⟩
  have hbest := @littlefsMdirScan_best _ _ (littlefsMktag 0x780 0 0)
    (littlefsMktag LITTLEFS_TYPE_NAME 0 0) LITTLEFS_TAG_INVALID (some (littlefsNameMatch name)) _
    hsize hcount hblk hoff ((hscan _ _ _ _).symm ▸ hne)
  rw [hbest, hscan, htags, List.reverse_reverse]

variable (hfetch : littlefsDirFetch fs pair = .ok mdir) (hblk : fs.block mdir.pair.1 = .ok blk)
  (hes : littlefsReplay (littlefsAccepted blk mdir.off) = some es)
  (hreach : littlefsReach (littlefsAccepted blk mdir.off).reverse ≤ 0x3ff)
include hfetch hblk hes hreach

theorem littlefsDirFrom_fileAt {t t' : LittlefsTortoise} (rounds : ℕ)
    (ht : littlefsTortoiseStep t pair = .ok t') :
    ∃ infos, List.Forall₂ (fun f info => info.1 = littlefsNameBuffer f.name
        ∧ LittlefsShows fs.toLittlefsData blk f info.2)
          ((List.range' 0 es.length).filterMap (littlefsFileAt fs.toLittlefsData mdir blk es)) infos
      ∧ littlefsDirFrom fs (rounds + 1) t pair = if mdir.split then
          (infos ++ (littlefsDirFrom fs rounds t' mdir.tail).1,
            (littlefsDirFrom fs rounds t' mdir.tail).2)
        else (infos, some none) := by
  obtain ⟨hpair, log, hpublished, htags, -, -⟩ := littlefsDirFetch_published hfetch hblk
  rw [htags] at hes hreach
  rw [List.reverse_reverse] at hreach
  have hcount : mdir.count = es.length := hpublished.count_eq.trans (littlefsReplay_length hes).2
  refine ⟨_, forall₂_filterMap (g := fun i f => (littlefsNameBuffer f.name, f.node mdir i))
    fun i hi f hf => ⟨rfl, ?_⟩, ?_⟩
  · refine littlefsShows_node hpair hblk hpublished hes hreach ?_ hf
    rw [List.mem_range'_1] at hi
    omega
  · have hlist := @littlefsListFrom_eq fs.toLittlefsData _ _ _ _ hpair hblk hpublished hes hreach
      es.length 0 (Nat.le_of_eq (Nat.zero_add _))
    rw [littlefsDirFrom, ht]
    simp only
    rw [hfetch]
    simp only
    rw [littlefsListPair, hcount, hlist]
    cases mdir.split
    · rw [if_pos (.inr rfl), if_neg Bool.false_ne_true]
    · rw [if_neg (by simp), if_pos rfl]

theorem littlefsFindPair_fileAt (horderly : LittlefsOrderly blk
      (littlefsAccepted blk mdir.off).reverse)
    (hmove : littlefsMoveHere fs.toLittlefsData mdir = true) {name : List UInt8} (hname : name ≠ [])
    {node : LittlefsNode} :
    littlefsFindPair fs pair name = .ok (.inl node)
      ↔ ∃ i f, i < es.length ∧ littlefsFileAt fs.toLittlefsData mdir blk es i = some f
        ∧ f.name = name ∧ node = f.node mdir i := by
  obtain ⟨hpair, log, hpublished, htags, hlow, hlookup⟩ := littlefsDirFetch_published hfetch hblk
  rw [htags] at hes hreach horderly
  rw [List.reverse_reverse] at hreach horderly
  have hmax := (littlefsReplay_length hes).1
  obtain ⟨start, hscan, hmatch, hbest⟩ := hlookup name
  obtain ⟨horder, hspec⟩ := @littlefsBest_spec _ name _ _ hes horderly hlow
  rw [← hbest] at hspec
  rw [littlefsFindPair_iff hname hmax hscan hmatch horder hspec]
  constructor
  · rintro ⟨k, r, hk, hr, hother, hfill⟩
    have hklt := littlefsNameAt_lt hk
    have hshown : littlefsShownId fs.toLittlefsData mdir k ≤ k := by
      rw [littlefsShownId]
      split_ifs <;> omega
    have hid := @littlefsTagId_setId r.2 (littlefsShownId fs.toLittlefsData mdir k) (by omega)
    obtain ⟨htype, -⟩ := @littlefsSetId_type r.2 (littlefsShownId fs.toLittlefsData mdir k)
      (by omega)
    by_cases hsource : littlefsTagId fs.gtag = littlefsShownId fs.toLittlefsData mdir k
    · have hslice : littlefsDirGetslice fs.toLittlefsData mdir LITTLEFS_STRUCT_MASK
          (littlefsMktag LITTLEFS_TYPE_STRUCT (littlefsShownId fs.toLittlefsData mdir k) 0) 0 8
          = .noent :=
        @littlefsDirGetslice_source _ _ LittlefsSlot.struct.key _ _ _ (by omega) hmove hsource
      have hnone : littlefsFillNode fs.toLittlefsData mdir
          (littlefsSetId r.2 (littlefsShownId fs.toLittlefsData mdir k)) = .noent := by
        rw [littlefsFillNode, hid, hslice]
      rw [hnone] at hfill
      cases hfill
    · have hreal : littlefsRealId fs.toLittlefsData mdir
          (littlefsShownId fs.toLittlefsData mdir k) = k := by
        have hne : littlefsTagId fs.gtag ≠ k := fun h => hother ⟨hmove, h⟩
        simp only [littlefsRealId, littlefsShownId, hmove, true_and] at hsource ⊢
        split_ifs at hsource ⊢ <;> omega
      rw [littlefsFillNode_eq hpair hblk hpublished hes hreach name (by rw [hid]; omega)
        (by rw [hid]; exact fun h => hsource h.2), hid, hreal, htype] at hfill
      obtain ⟨e, he, hn⟩ := Option.bind_eq_some_iff.mp hk
      have hentry : littlefsEntryFile fs.blockCount blk e = (e .struct).bind
          (littlefsStructFile fs.blockCount blk name (littlefsTagType3 r.2 = LITTLEFS_TYPE_DIR)) := by
        rw [littlefsEntryFile, hn, Option.bind_some, hr]
      rw [he, Option.bind_some, ← hentry] at hfill
      cases hfile : littlefsEntryFile fs.blockCount blk e with
      | none =>
        rw [hfile] at hfill
        cases hfill
      | some f =>
        rw [hfile] at hfill
        injection hfill with hfill
        refine ⟨_, f, by omega, ?_, ?_, hfill.symm⟩
        · rw [littlefsFileAt, if_neg fun h => hsource h.2, hreal, he]
          exact hfile
        · obtain ⟨s, -, hs⟩ := Option.bind_eq_some_iff.mp (hentry ▸ hfile)
          exact littlefsStructFile_name hs
  · rintro ⟨i, f, hi, hf, hfname, rfl⟩
    rw [littlefsFileAt] at hf
    split_ifs at hf with hother
    obtain ⟨e, he, hfile⟩ := Option.bind_eq_some_iff.mp hf
    obtain ⟨n, hn, hbind⟩ := Option.bind_eq_some_iff.mp hfile
    obtain ⟨s, hs, hstruct⟩ := Option.bind_eq_some_iff.mp hbind
    have hnof : littlefsNameOf blk n = name := (littlefsStructFile_name hstruct).symm.trans hfname
    have hne : littlefsTagId fs.gtag ≠ i := fun h => hother ⟨hmove, h⟩
    have hshown : littlefsShownId fs.toLittlefsData mdir (littlefsRealId fs.toLittlefsData mdir i)
        = i := by
      simp only [littlefsRealId, littlefsShownId, hmove, true_and]
      split_ifs <;> omega
    obtain ⟨htype, -⟩ := @littlefsSetId_type n.2 i (by omega)
    have hid := @littlefsTagId_setId n.2 i (by omega)
    refine ⟨littlefsRealId fs.toLittlefsData mdir i, n, ?_, hnof, ?_, ?_⟩
    · rw [littlefsNameAt, he]
      exact hn
    · rintro ⟨-, h⟩
      simp only [littlefsRealId, hmove, true_and] at h
      split_ifs at h <;> omega
    · rw [hshown, littlefsFillNode_eq hpair hblk hpublished hes hreach (littlefsNameOf blk n)
        (by rw [hid]; omega) (by rw [hid]; exact hother), hid, htype, he, Option.bind_some, hs,
        Option.bind_some, hstruct]
      rfl

omit hfetch hblk hes hreach in
/-- The ids stand for what is left but for the file behind the moved one. -/
theorem exists_littlefsFileAt_iff (hmove : littlefsMoveHere fs.toLittlefsData mdir = true)
    (hlt : littlefsTagId fs.gtag < es.length) {f : LittlefsFile} :
    (∃ i < es.length, littlefsFileAt fs.toLittlefsData mdir blk es i = some f)
      ↔ f ∈ (es.take (littlefsTagId fs.gtag)).filterMap (littlefsEntryFile fs.blockCount blk)
        ++ (es.drop (littlefsTagId fs.gtag + 2)).filterMap
          (littlefsEntryFile fs.blockCount blk) := by
  rw [← littlefsFileAt_ids hmove hlt, List.mem_filterMap]
  simp only [List.mem_range'_1, Nat.zero_le, true_and, Nat.zero_add]

/-- A pending move hides its source and nothing else if and only if there is no file directly behind
the source: the entry that takes over the id of the moved one is not looked at. -/
theorem littlefsMoveHides_iff (horderly : LittlefsOrderly blk
      (littlefsAccepted blk mdir.off).reverse)
    (hmove : littlefsMoveHere fs.toLittlefsData mdir = true)
    (hlt : littlefsTagId fs.gtag < es.length) :
    LittlefsMoveHides fs pair mdir blk es ↔ littlefsFileBehind fs blk es = none := by
  constructor
  · intro h
    -- a walk that has just come from elsewhere
    have ht : littlefsTortoiseStep ⟨(pair.1 + 1, pair.2 + 1), 1, 1⟩ pair = .ok ⟨pair, 1, 2⟩ := by
      have hnew : ¬ (pair = (pair.1 + 1, pair.2 + 1) ∨ pair = (pair.2 + 1, pair.1 + 1)) := by
        rintro (h | h)
        · exact absurd (congrArg Prod.fst h) (by simp)
        · have hfst := congrArg Prod.fst h
          have hsnd := congrArg Prod.snd h
          simp only at hfst hsnd
          omega
      rw [littlefsTortoiseStep, if_neg hnew]
      rfl
    obtain ⟨infos, hinfos, hdir⟩ := h.listed 0 _ _ ht
    obtain ⟨infos', hinfos', hdir'⟩ := littlefsDirFrom_fileAt hfetch hblk hes hreach 0 ht
    rw [hdir] at hdir'
    have hsame : infos = infos' := by
      cases hsplit : mdir.split with
      | false =>
        rw [hsplit] at hdir'
        exact congrArg Prod.fst hdir'
      | true =>
        rw [hsplit] at hdir'
        exact List.append_cancel_right (congrArg Prod.fst hdir')
    have hlen := hinfos.length_eq.trans (hsame ▸ hinfos'.length_eq.symm)
    rw [littlefsFileAt_ids hmove hlt, littlefsFilesLeft_eq] at hlen
    simp only [List.length_append] at hlen
    have hzero : (littlefsFileBehind fs blk es).toList.length = 0 := by omega
    exact Option.toList_eq_nil_iff.mp (List.length_eq_zero_iff.mp hzero)
  · intro h
    have hleft : littlefsFilesLeft fs blk es
        = (List.range' 0 es.length).filterMap (littlefsFileAt fs.toLittlefsData mdir blk es) := by
      rw [littlefsFileAt_ids hmove hlt, littlefsFilesLeft_eq, h]
      rfl
    have hshows : ∀ {i f}, i < es.length → littlefsFileAt fs.toLittlefsData mdir blk es i = some f →
        LittlefsShows fs.toLittlefsData blk f (f.node mdir i) := by
      obtain ⟨hpair, log, hpublished, htags, -, -⟩ := littlefsDirFetch_published hfetch hblk
      rw [htags] at hes hreach
      rw [List.reverse_reverse] at hreach
      exact fun hi hf => littlefsShows_node hpair hblk hpublished hes hreach hi hf
    refine ⟨fun rounds t t' ht => ?_, fun name node hname hfind => ?_,
      fun f hf hname rounds t t' ht => ?_⟩
    · rw [hleft]
      exact littlefsDirFrom_fileAt hfetch hblk hes hreach rounds ht
    · obtain ⟨i, f, hi, hf, hfname, rfl⟩ :=
        (littlefsFindPair_fileAt hfetch hblk hes hreach horderly hmove hname).mp hfind
      refine ⟨f, ?_, hfname, hshows hi hf⟩
      rw [hleft, littlefsFileAt_ids hmove hlt, ← exists_littlefsFileAt_iff hmove hlt]
      exact ⟨i, hi, hf⟩
    · rw [hleft, littlefsFileAt_ids hmove hlt, ← exists_littlefsFileAt_iff hmove hlt] at hf
      obtain ⟨i, hi, hf⟩ := hf
      have hfind := (littlefsFindPair_fileAt hfetch hblk hes hreach horderly hmove hname).mpr
        ⟨i, f, hi, hf, rfl, rfl⟩
      refine ⟨_, ?_, hshows hi hf⟩
      rw [littlefsLookupFrom, ht]
      simp only
      rw [hfind]

end Hides

/-- A file system of one pair, out of which entry 0 is being moved. The second block of the pair is
not read. -/
def littlefsMovingFs (bytes : List UInt8) : LittlefsFs where
  toLittlefsData := { littlefsOneBlock bytes with
    blockCount := 2
    gtag := littlefsMktag LITTLEFS_TYPE_DELETE 0 0
    gpair := (0, 1) }
  revision n := if n = 0 then .ok 1 else .error ⟨.fileReadError, "failure reading sector"⟩

/-- Its pair. -/
def littlefsMovingMdir (off etag count : ℕ) : LittlefsMdir where
  pair := (0, 1)
  rev := 1
  off
  etag
  tail := (LITTLEFS_BLOCK_NULL, LITTLEFS_BLOCK_NULL)
  count
  split := false

/-- An entry `a`, an entry `b` behind it, and the checksum. -/
def littlefsTwoEntries : List UInt8 :=
  [0x01, 0x00, 0x00, 0x00, 0xbf, 0xef, 0xff, 0xff, 0x40, 0x00, 0x00, 0x01, 0x61, 0x20, 0x00, 0x00,
    0x03, 0x68, 0x69, 0x60, 0x00, 0x04, 0x02, 0x40, 0x00, 0x00, 0x01, 0x62, 0x20, 0x00, 0x00, 0x03,
    0x68, 0x6f, 0x70, 0x1f, 0xf8, 0x06, 0xae, 0x12, 0x88, 0xd7]

theorem littlefsTwoEntries_script :
    (littlefsReplay (littlefsAccepted (.ofFields [(0, littlefsTwoEntries)]) 42)).isSome = true := by
  decide

theorem littlefsOneEntry_replayed :
    (littlefsReplay (littlefsAccepted (.ofFields [(0, littlefsOneEntry)]) 27)).isSome = true := by
  decide

theorem littlefsInOrder_of_count_le {blk : Buf} {r : ℕ × ℕ} {log : List (ℕ × ℕ)}
    {es es' : List LittlefsEntry} (hes : littlefsReplay log.reverse = some es)
    (hedit : littlefsEdit es r = some es') (hcount : littlefsCount (r :: log) ≤ 1) :
    LittlefsInOrder blk es' := by
  intro i j a b hij ha hb
  have hes' : littlefsReplay (r :: log).reverse = some es' := by
    rw [littlefsReplay_cons, hes]
    exact hedit
  have hlen := (littlefsReplay_length hes').2
  have hi := littlefsNameAt_lt ha
  have hj := littlefsNameAt_lt hb
  omega

theorem littlefsOneEntry_orderly : LittlefsOrderly (.ofFields [(0, littlefsOneEntry)])
    (littlefsAccepted (.ofFields [(0, littlefsOneEntry)]) 27).reverse := by
  have hlog : (littlefsAccepted (.ofFields [(0, littlefsOneEntry)]) 27).reverse
      = [(19, littlefsMktag LITTLEFS_TYPE_CCRC 0x3ff 4), (13, littlefsMktag 0x201 0 2),
        (8, littlefsMktag 0x001 0 1), (4, littlefsMktag LITTLEFS_TYPE_CREATE 0 0)] := by
    decide
  rw [hlog]
  refine ⟨⟨⟨⟨trivial, ?create⟩, ?name⟩, ?struct⟩, ?ccrc⟩
  case create =>
    exact fun es es' hes hedit => ⟨littlefsInOrder_of_count_le hes hedit (by decide),
      fun h => absurd h (by decide), fun h => absurd h (by decide)⟩
  case name =>
    refine fun es es' hes hedit => ⟨littlefsInOrder_of_count_le hes hedit (by decide),
      fun _ => ⟨?_, by decide⟩, fun h => absurd h (by decide)⟩
    obtain rfl := Option.some.inj hes
    rfl
  case struct =>
    exact fun es es' hes hedit => ⟨littlefsInOrder_of_count_le hes hedit (by decide),
      fun h => absurd h (by decide), fun h => absurd h (by decide)⟩
  case ccrc =>
    exact fun es es' hes hedit => ⟨littlefsInOrder_of_count_le hes hedit (by decide),
      fun h => absurd h (by decide), fun h => absurd h (by decide)⟩

/-- A moved entry with nothing behind it is hidden, and nothing else. -/
theorem littlefsMoveHides_one : LittlefsMoveHides (littlefsMovingFs littlefsOneEntry) (0, 1)
    (littlefsMovingMdir 27 (littlefsMktag LITTLEFS_TYPE_CCRC 0x3ff 4) 1)
    (.ofFields [(0, littlefsOneEntry)])
    ((littlefsReplay (littlefsAccepted (.ofFields [(0, littlefsOneEntry)]) 27)).get
      littlefsOneEntry_replayed) :=
  (littlefsMoveHides_iff (by decide +kernel) rfl (Option.some_get _).symm (by decide +kernel)
    littlefsOneEntry_orderly (by decide) (by decide +kernel)).mpr (by decide +kernel)

/-- The entry behind a moved one is neither listed nor found, though it is left. -/
theorem littlefsMove_hides_next :
    littlefsDirFetch (littlefsMovingFs littlefsTwoEntries) (0, 1)
        = .ok (littlefsMovingMdir 42 (littlefsMktag LITTLEFS_TYPE_CCRC 0x3ff 4) 2)
      ∧ grubLittlefsDir (littlefsMovingFs littlefsTwoEntries) 1 (0, 1) = ([], some none)
      ∧ littlefsLookupFile (littlefsMovingFs littlefsTwoEntries) 1 (0, 1) [0x62] = some (.ok none)
      ∧ ∃ es, littlefsReplay (littlefsAccepted (.ofFields [(0, littlefsTwoEntries)]) 42) = some es
        ∧ (littlefsFilesLeft (littlefsMovingFs littlefsTwoEntries)
          (.ofFields [(0, littlefsTwoEntries)]) es).map LittlefsFile.name = [[0x62]]
        ∧ ¬ LittlefsMoveHides (littlefsMovingFs littlefsTwoEntries) (0, 1)
          (littlefsMovingMdir 42 (littlefsMktag LITTLEFS_TYPE_CCRC 0x3ff 4) 2)
          (.ofFields [(0, littlefsTwoEntries)]) es := by
  have hdir : grubLittlefsDir (littlefsMovingFs littlefsTwoEntries) 1 (0, 1) = ([], some none) := by
    decide +kernel
  have hleft : (littlefsFilesLeft (littlefsMovingFs littlefsTwoEntries)
      (.ofFields [(0, littlefsTwoEntries)])
      ((littlefsReplay (littlefsAccepted (.ofFields [(0, littlefsTwoEntries)]) 42)).get
        littlefsTwoEntries_script)).map LittlefsFile.name = [[0x62]] := by
    decide +kernel
  refine ⟨by decide +kernel, hdir, by decide +kernel, _,
    (Option.some_get littlefsTwoEntries_script).symm, hleft, fun h => ?_⟩
  obtain ⟨infos, hinfos, hlist⟩ := h.listed 0 .init _ rfl
  have hnil : infos = [] := (congrArg Prod.fst (hdir.symm.trans hlist)).symm
  have hlen := hinfos.length_eq.trans (congrArg List.length hnil)
  rw [← List.length_map LittlefsFile.name, hleft] at hlen
  cases hlen

end FsRover
