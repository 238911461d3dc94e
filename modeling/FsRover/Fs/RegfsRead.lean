import FsRover.Fs.RegfsNames

/-!
# The data of a value

Reads of an opened value return its bytes, all of them out of allocated cells. The listing gives
every value the size zero: the node gets its size when the value is opened.

## Main definitions

* `FsRover.regfsCellBytes`, `FsRover.regfsValueData` : the bytes of a cell, and of a value.
* `FsRover.RegfsAllocated` : a run of bytes in an allocated cell.
* `FsRover.regfsSpans` : the disk reads of `grub_regfs_read`.
* `FsRover.RegfsSizeOk` : the size of the listing, the size of the file and what is read.

## Main results

* `FsRover.regfsRead_eq` : reads return the data of the value.
* `FsRover.regfsOpenValue_spec` : they stay in allocated cells.
* `FsRover.regfsOpenValue_congr` : bytes outside the hive bins do not matter.
* `FsRover.regfsSizeOk_iff` : the listing has the right size for values without data.
-/

namespace FsRover

open Guards

/-! ### Segments -/

/-- The bytes of a run on the disk. -/
def regfsBytes (disk : Buf) (run : ℕ × ℕ) : List UInt8 := (List.range run.2).map (disk.from run.1)

@[simp] theorem length_regfsBytes (disk : Buf) (run : ℕ × ℕ) :
    (regfsBytes disk run).length = run.2 := by
  rw [regfsBytes, List.length_map, List.length_range]

theorem regfsBytes_drop_take (disk : Buf) (off : ℕ) {segLen pos n : ℕ} (h : pos + n ≤ segLen) :
    ((regfsBytes disk (off, segLen)).drop pos).take n = regfsBytes disk (off + pos, n) := by
  refine List.ext_getElem ?_ fun i hi hi' => ?_
  · rw [List.length_take, List.length_drop, length_regfsBytes, length_regfsBytes]
    simp only
    omega
  · simp [regfsBytes, Nat.add_assoc]

theorem regfsBytes_take (disk : Buf) (off : ℕ) {segLen n : ℕ} (h : n ≤ segLen) :
    (regfsBytes disk (off, segLen)).take n = regfsBytes disk (off, n) := by
  have hpart := @regfsBytes_drop_take disk off segLen 0 n (by omega)
  rwa [List.drop_zero, Nat.add_zero] at hpart

/-- The disk reads of the loop of `grub_regfs_read`. -/
def regfsSpans : List (ℕ × ℕ) → ℕ → ℕ → List (ℕ × ℕ)
  | [], _, _ => []
  | (off, segLen) :: segs, pos, len =>
    if len = 0 then []
    else if segLen ≤ pos then regfsSpans segs (pos - segLen) len
    else
      let n := min (segLen - pos) len
      (off + pos, n) :: regfsSpans segs 0 (len - n)

theorem regfsSpans_contained {segs : List (ℕ × ℕ)} {pos len : ℕ} {span : ℕ × ℕ}
    (h : span ∈ regfsSpans segs pos len) :
    ∃ seg ∈ segs, seg.1 ≤ span.1 ∧ span.1 + span.2 ≤ seg.1 + seg.2 := by
  induction segs generalizing pos len with
  | nil => cases h
  | cons seg segs ih =>
    obtain ⟨off, segLen⟩ := seg
    rw [regfsSpans] at h
    by_cases hlen : len = 0
    · rw [if_pos hlen] at h
      cases h
    rw [if_neg hlen] at h
    by_cases hpos : segLen ≤ pos
    · rw [if_pos hpos] at h
      obtain ⟨seg, hseg, hin⟩ := ih h
      exact ⟨seg, List.mem_cons_of_mem _ hseg, hin⟩
    · rw [if_neg hpos] at h
      rcases List.mem_cons.mp h with rfl | h
      · refine ⟨(off, segLen), List.mem_cons_self, Nat.le_add_right _ _, ?_⟩
        simp only
        omega
      · obtain ⟨seg, hseg, hin⟩ := ih h
        exact ⟨seg, List.mem_cons_of_mem _ hseg, hin⟩

theorem regfsReadSegs_eq (disk : Buf) (segs : List (ℕ × ℕ)) (pos len : ℕ) :
    regfsReadSegs disk segs pos len = ((segs.flatMap (regfsBytes disk)).drop pos).take len := by
  induction segs generalizing pos len with
  | nil => rw [regfsReadSegs, List.flatMap_nil, List.drop_nil, List.take_nil]
  | cons seg segs ih =>
    obtain ⟨off, segLen⟩ := seg
    rw [regfsReadSegs, List.flatMap_cons]
    by_cases hlen : len = 0
    · rw [if_pos hlen, hlen, List.take_zero]
    rw [if_neg hlen]
    by_cases hpos : segLen ≤ pos
    · have hskip : (regfsBytes disk (off, segLen)).drop pos = [] :=
        List.drop_of_length_le (by rwa [length_regfsBytes])
      rw [if_pos hpos, ih, List.drop_append, length_regfsBytes, hskip, List.nil_append]
    · have hdrop : ((regfsBytes disk (off, segLen)).drop pos).length = segLen - pos := by
        rw [List.length_drop, length_regfsBytes]
      have hle : pos ≤ (regfsBytes disk (off, segLen)).length := by
        rw [length_regfsBytes]
        exact Nat.le_of_not_le hpos
      rw [if_neg hpos]
      show regfsBytes disk (off + pos, min (segLen - pos) len)
        ++ regfsReadSegs disk segs 0 (len - min (segLen - pos) len) = _
      rw [ih, List.drop_zero, List.drop_append_of_le_length hle, List.take_append, hdrop,
        ← @regfsBytes_drop_take disk off segLen _ _ (by omega)]
      rcases Nat.le_total len (segLen - pos) with hle | hle
      · rw [Nat.min_eq_right hle, Nat.sub_self, Nat.sub_eq_zero_of_le hle]
      · have hall : ((regfsBytes disk (off, segLen)).drop pos).take len
            = (regfsBytes disk (off, segLen)).drop pos := List.take_of_length_le (by omega)
        rw [Nat.min_eq_left hle, hall, ← hdrop, List.take_length]

/-! ### Values -/

/-- The bytes of an allocated cell. -/
def regfsCellBytes (data : RegfsData) (cell : ℕ) : List UInt8 :=
  match regfsCellAt data cell with
  | .error _ => []
  | .ok run => regfsBytes data.disk run

/-- The cells of the segments, if the value in `cell` lies in segments. -/
def regfsDbCells (data : RegfsData) (size cell : ℕ) : Option (List ℕ) :=
  match regfsCellAt data cell with
  | .error _ => none
  | .ok (diskOff, cellLen) =>
    if regfsIsDb data size diskOff cellLen then
      match regfsReadCell data (lostLe32 data.disk (diskOff + 4)) with
      | .error _ => none
      | .ok (list, listLen) =>
        some ((List.range (min (lostLe16 data.disk (diskOff + 2)) (listLen / 4))).map fun i =>
          lostLe32 list (i * 4))
    else none

/-- The data of the value whose record is in `cell`: the bytes in the record, the segments in a row
or the one cell, cut at the size in the record. -/
def regfsValueData (data : RegfsData) (cell : ℕ) : List UInt8 :=
  match regfsReadCell data cell with
  | .error _ => []
  | .ok (vk, _) =>
    let size := lostLe32 vk 4
    let off := lostLe32 vk 8
    if REGFS_VALUE_INLINE ≤ size then
      ((List.range 4).map (vk.from 8)).take (size - REGFS_VALUE_INLINE)
    else if size = 0 ∨ off = REGFS_NIL then []
    else
      match regfsDbCells data size off with
      | some cells => (cells.flatMap fun c => (regfsCellBytes data c).take
        REGFS_SEGMENT_MAX).take size
      | none => (regfsCellBytes data off).take size

/-- A run of bytes of an allocated cell, in the hive bins. -/
def RegfsAllocated (data : RegfsData) (run : ℕ × ℕ) : Prop :=
  ∃ cell diskOff cellLen, regfsCellAt data cell = .ok (diskOff, cellLen)
    ∧ diskOff ≤ run.1 ∧ run.1 + run.2 ≤ diskOff + cellLen
    ∧ REGFS_HBINS_BASE ≤ run.1 ∧ run.1 + run.2 ≤ REGFS_HBINS_BASE + data.hbinsSize

theorem regfsCellAt_eq_ok {data : RegfsData} {cell diskOff len : ℕ}
    (h : regfsCellAt data cell = .ok (diskOff, len)) :
    diskOff = REGFS_HBINS_BASE + cell + (4 + data.cellExtra)
      ∧ diskOff + len ≤ REGFS_HBINS_BASE + data.hbinsSize := by
  simp only [regfsCellAt, bind_eq_ok_iff, refuseIf_eq_ok_iff, exists_const, Except.ok.injEq,
    Prod.mk.injEq] at h
  obtain ⟨hhead, -, hsize, rfl, rfl⟩ := h
  refine ⟨rfl, ?_⟩
  omega

theorem RegfsAllocated.of_cell {data : RegfsData} {cell diskOff len off n : ℕ}
    (h : regfsCellAt data cell = .ok (diskOff, len)) (hoff : diskOff ≤ off)
    (hn : off + n ≤ diskOff + len) : RegfsAllocated data (off, n) := by
  obtain ⟨hdisk, hend⟩ := regfsCellAt_eq_ok h
  refine ⟨cell, diskOff, len, h, hoff, hn, ?_, Nat.le_trans hn hend⟩
  simp only
  omega

theorem RegfsAllocated.of_part {data : RegfsData} {run part : ℕ × ℕ} (h : RegfsAllocated data run)
    (hfirst : run.1 ≤ part.1) (hlast : part.1 + part.2 ≤ run.1 + run.2) :
    RegfsAllocated data part := by
  obtain ⟨cell, diskOff, cellLen, hcell, hoff, hend, hbase, hbins⟩ := h
  exact ⟨cell, diskOff, cellLen, hcell, by omega, by omega, by omega, by omega⟩

/-- The loop over the segments: `total` counts the bytes, and they are those of the cells. -/
theorem regfsSegments_spec {data : RegfsData} {list : Buf} {size n i total : ℕ}
    {segs : List (ℕ × ℕ)} {total' : ℕ} (htotal : total ≤ size)
    (h : regfsSegments data list size n i total = .ok (segs, total')) :
    total' = total + (segs.flatMap (regfsBytes data.disk)).length
      ∧ segs.flatMap (regfsBytes data.disk)
        = (((List.range' i n).map fun i => lostLe32 list (i * 4)).flatMap fun c =>
            (regfsCellBytes data c).take REGFS_SEGMENT_MAX).take (size - total)
      ∧ ∀ seg ∈ segs, RegfsAllocated data seg := by
  induction n generalizing i total segs with
  | zero =>
    rw [regfsSegments] at h
    cases h
    refine ⟨rfl, ?_, (fun seg hseg => by cases hseg)⟩
    rw [List.range'_zero, List.map_nil, List.flatMap_nil, List.flatMap_nil, List.take_nil]
  | succ n ih =>
    rw [regfsSegments] at h
    by_cases hmore : total < size
    · simp only [if_pos hmore, bind_eq_ok_iff] at h
      obtain ⟨⟨diskOff, len⟩, hcell, ⟨rest, total''⟩, hrest, h⟩ := h
      cases h
      obtain ⟨hcount, hbytes, halloc⟩ := ih (by omega) hrest
      have hchunk : (regfsCellBytes data (lostLe32 list (i * 4))).take REGFS_SEGMENT_MAX
          = regfsBytes data.disk (diskOff, min len REGFS_SEGMENT_MAX) := by
        rw [regfsCellBytes, hcell]
        rcases Nat.le_total len REGFS_SEGMENT_MAX with hle | hle
        · rw [Nat.min_eq_left hle, List.take_of_length_le (by rwa [length_regfsBytes])]
        · rw [Nat.min_eq_right hle]
          exact regfsBytes_take _ _ hle
      refine ⟨?_, ?_, fun seg hseg => ?_⟩
      · rw [hcount, List.flatMap_cons, List.length_append, length_regfsBytes, Nat.add_assoc]
      · rw [List.range'_succ, List.map_cons, List.flatMap_cons, List.flatMap_cons, hchunk, hbytes,
          List.take_append, length_regfsBytes]
        simp only
        rcases Nat.le_total (min len REGFS_SEGMENT_MAX) (size - total) with hle | hle
        · have hall : (regfsBytes data.disk (diskOff, min len REGFS_SEGMENT_MAX)).take
            (size - total)
              = regfsBytes data.disk (diskOff, min len REGFS_SEGMENT_MAX) :=
            List.take_of_length_le (by rwa [length_regfsBytes])
          rw [Nat.min_eq_left hle, hall, Nat.sub_sub]
        · have hend : size - (total + (size - total)) = 0 := by omega
          rw [Nat.min_eq_right hle, regfsBytes_take _ _ hle, hend, Nat.sub_eq_zero_of_le hle]
      · rcases List.mem_cons.mp hseg with rfl | hseg
        · exact RegfsAllocated.of_cell hcell (Nat.le_refl _) (by omega)
        · exact halloc seg hseg
    · rw [if_neg hmore] at h
      cases h
      rw [Nat.sub_eq_zero_of_le (by omega), List.take_zero]
      exact ⟨rfl, rfl, fun seg hseg => by cases hseg⟩

/-- What an opened value is: its data lies in the record or in the segments, and both lie in
allocated cells. -/
theorem regfsOpenValue_spec {data : RegfsData} {cell : ℕ} {file : RegfsFile}
    (h : regfsOpenValue data cell = .ok file) :
    file.size = (regfsValueData data cell).length
      ∧ (file.inlineData ≠ [] → file.inlineData = regfsValueData data cell
        ∧ ∃ off, file.inlineData = regfsBytes data.disk (off, file.size)
          ∧ RegfsAllocated data (off, file.size))
      ∧ (file.inlineData = [] → file.segs.flatMap (regfsBytes data.disk) = regfsValueData data cell)
      ∧ ∀ seg ∈ file.segs, RegfsAllocated data seg := by
  simp only [regfsOpenValue, bind_eq_ok_iff, refuseIf_eq_ok_iff, exists_const] at h
  obtain ⟨⟨vk, vkLen⟩, hvk, hrecord, h⟩ := h
  rw [regfsValueData, hvk]
  simp only at h hrecord ⊢
  by_cases hinline : REGFS_VALUE_INLINE ≤ lostLe32 vk 4
  · rw [if_pos hinline] at h ⊢
    obtain rfl := Except.ok.inj h
    simp only [regfsReadCell, bind_eq_ok_iff] at hvk
    obtain ⟨⟨diskOff, len⟩, hcell, h⟩ := hvk
    cases h
    have hdata : (List.range (min (lostLe32 (data.disk.from diskOff) 4 - REGFS_VALUE_INLINE) 4)).map
          ((data.disk.from diskOff).from 8)
        = ((List.range 4).map ((data.disk.from diskOff).from 8)).take
          (lostLe32 (data.disk.from diskOff) 4 - REGFS_VALUE_INLINE) := by
      rw [← List.map_take, List.take_range]
    simp only at hdata ⊢
    rw [← hdata]
    refine ⟨?_, fun _ => ⟨rfl, diskOff + 8, ?_, ?_⟩, fun hnil => ?_, fun seg hseg => by cases hseg⟩
    · rw [List.length_map, List.length_range]
    · refine List.map_congr_left fun i _ => ?_
      rw [Buf.from_apply, Buf.from_apply, Buf.from_apply, Nat.add_assoc]
    · refine RegfsAllocated.of_cell hcell (Nat.le_add_right _ _) ?_
      have hlen : REGFS_VK_SIZE ≤ len := by
        rw [not_or] at hrecord
        exact Nat.le_of_not_lt hrecord.1
      rw [REGFS_VK_SIZE] at hlen
      omega
    · rw [hnil]
      rfl
  rw [if_neg hinline] at h ⊢
  by_cases hempty : lostLe32 vk 4 = 0 ∨ lostLe32 vk 8 = REGFS_NIL
  · rw [if_pos hempty] at h ⊢
    obtain rfl := Except.ok.inj h
    exact ⟨rfl, fun hnil => absurd rfl hnil, fun _ => rfl, fun seg hseg => by cases hseg⟩
  rw [if_neg hempty] at h ⊢
  simp only [bind_eq_ok_iff] at h
  obtain ⟨⟨diskOff, cellLen⟩, hcell, h⟩ := h
  simp only at h
  rw [regfsDbCells, hcell]
  simp only
  by_cases hdb : regfsIsDb data (lostLe32 vk 4) diskOff cellLen = true
  · simp only [if_pos hdb, bind_eq_ok_iff] at h
    obtain ⟨⟨list, listLen⟩, hlist, ⟨segs, total⟩, hsegs, h⟩ := h
    obtain rfl := Except.ok.inj h
    rw [if_pos hdb, hlist]
    obtain ⟨hcount, hbytes, halloc⟩ := regfsSegments_spec (Nat.zero_le _) hsegs
    rw [Nat.sub_zero, ← List.range_eq_range'] at hbytes
    simp only at hbytes ⊢
    refine ⟨?_, fun hnil => absurd rfl hnil, fun _ => hbytes, halloc⟩
    rw [← hbytes, hcount, Nat.zero_add]
  · rw [if_neg hdb] at h
    obtain rfl := Except.ok.inj h
    rw [if_neg hdb]
    have hdata : (regfsCellBytes data (lostLe32 vk 8)).take (lostLe32 vk 4)
        = regfsBytes data.disk (diskOff, min (lostLe32 vk 4) cellLen) := by
      rw [regfsCellBytes, hcell]
      rcases Nat.le_total (lostLe32 vk 4) cellLen with hle | hle
      · rw [Nat.min_eq_left hle]
        exact regfsBytes_take _ _ hle
      · rw [Nat.min_eq_right hle, List.take_of_length_le (by rwa [length_regfsBytes])]
    simp only
    rw [hdata, List.flatMap_singleton]
    refine ⟨?_, fun hnil => absurd rfl hnil, fun _ => rfl, fun seg hseg => ?_⟩
    · rw [length_regfsBytes]
    · rw [List.mem_singleton.mp hseg]
      exact RegfsAllocated.of_cell hcell (Nat.le_refl _) (by omega)

/-- Reads return the data of the value. -/
theorem regfsRead_eq {data : RegfsData} {cell : ℕ} {file : RegfsFile}
    (h : regfsOpenValue data cell = .ok file) (pos len : ℕ) :
    regfsRead data file pos len = ((regfsValueData data cell).drop pos).take len := by
  obtain ⟨hsize, hinline, hsegs, -⟩ := regfsOpenValue_spec h
  rw [regfsRead]
  by_cases hpos : file.size ≤ pos
  · rw [if_pos hpos, List.drop_of_length_le (by omega), List.take_nil]
  · have hcut : ((regfsValueData data cell).drop pos).take (min len (file.size - pos))
        = ((regfsValueData data cell).drop pos).take len := by
      rw [hsize, ← List.length_drop, ← List.take_eq_take_min]
    rw [if_neg hpos]
    simp only
    by_cases hnil : file.inlineData = []
    · rw [if_neg (not_not.mpr hnil), regfsReadSegs_eq, hsegs hnil, hcut]
    · rw [if_pos hnil, (hinline hnil).1, hcut]

/-! ### Bytes outside the hive bins -/

section Congr

variable {data : RegfsData} {disk : Buf}
  (hdisk : ∀ i, REGFS_HBINS_BASE ≤ i → i < REGFS_HBINS_BASE + data.hbinsSize → disk i = data.disk i)
include hdisk

theorem lostLe16_congr {i : ℕ} (hfirst : REGFS_HBINS_BASE ≤ i)
    (hlast : i + 2 ≤ REGFS_HBINS_BASE + data.hbinsSize) : lostLe16 disk i
      = lostLe16 data.disk i := by
  rw [lostLe16, lostLe16, byteAt, byteAt, byteAt, byteAt, hdisk i hfirst (by omega),
    hdisk (i + 1) (by omega) (by omega)]

theorem lostLe32_congr {i : ℕ} (hfirst : REGFS_HBINS_BASE ≤ i)
    (hlast : i + 4 ≤ REGFS_HBINS_BASE + data.hbinsSize) : lostLe32 disk i
      = lostLe32 data.disk i := by
  rw [lostLe32, lostLe32, lostLe16_congr hdisk hfirst (by omega),
    lostLe16_congr hdisk (by omega) (by omega)]

theorem regfsCellAt_congr (cell : ℕ) : regfsCellAt { data with disk } cell
  = regfsCellAt data cell := by
  rw [regfsCellAt, regfsCellAt]
  simp only
  by_cases hhead : data.hbinsSize ≤ cell ∨ data.hbinsSize - cell < 4 + data.cellExtra
  · rw [refuseIf, if_pos hhead]
    rfl
  · rw [lostLe32_congr hdisk (Nat.le_add_right _ _) (by omega)]

theorem regfsSegments_congr {size off n i total : ℕ} (hfirst : REGFS_HBINS_BASE ≤ off)
    (hlast : off + (i + n) * 4 ≤ REGFS_HBINS_BASE + data.hbinsSize) :
    regfsSegments { data with disk } (disk.from off) size n i total
      = regfsSegments data (data.disk.from off) size n i total := by
  induction n generalizing i total with
  | zero => rfl
  | succ n ih =>
    have hentry : lostLe32 (disk.from off) (i * 4) = lostLe32 (data.disk.from off) (i * 4) :=
      @lostLe32_congr data _ hdisk (off + i * 4) (by omega) (by omega)
    rw [regfsSegments, regfsSegments, hentry, regfsCellAt_congr hdisk]
    by_cases hmore : total < size
    · simp only [if_pos hmore]
      congr 1
      funext run
      rw [ih (by omega)]
    · rw [if_neg hmore, if_neg hmore]

theorem regfsIsDb_congr {size diskOff cellLen : ℕ} (hfirst : REGFS_HBINS_BASE ≤ diskOff)
    (hlast : diskOff + cellLen ≤ REGFS_HBINS_BASE + data.hbinsSize) :
    regfsIsDb { data with disk } size diskOff cellLen = regfsIsDb data size diskOff cellLen := by
  rw [regfsIsDb, regfsIsDb]
  by_cases hlen : 8 ≤ cellLen
  · rw [lostLe16_congr hdisk hfirst (by omega)]
  · rw [decide_eq_false hlen, Bool.and_false, Bool.false_and, Bool.false_and, Bool.false_and]

/-- What a value opens as depends on the hive bins only. -/
theorem regfsOpenValue_congr (cell : ℕ) :
    regfsOpenValue { data with disk } cell = regfsOpenValue data cell := by
  have hrecord : ∀ c, regfsReadCell { data with disk } c
      = (regfsCellAt data c).map fun run => (disk.from run.1, run.2) := by
    intro c
    rw [regfsReadCell, regfsCellAt_congr hdisk]
    cases regfsCellAt data c with
    | error e => rfl
    | ok run => rfl
  have hrecord' : ∀ c, regfsReadCell data c
      = (regfsCellAt data c).map fun run => (data.disk.from run.1, run.2) := by
    intro c
    rw [regfsReadCell]
    cases regfsCellAt data c with
    | error e => rfl
    | ok run => rfl
  rw [regfsOpenValue, regfsOpenValue, hrecord, hrecord']
  cases hcell : regfsCellAt data cell with
  | error e => rfl
  | ok run =>
    obtain ⟨off, len⟩ := run
    obtain ⟨hoff, hend⟩ := regfsCellAt_eq_ok hcell
    by_cases hlen : len < REGFS_VK_SIZE
    · simp only [Except.map, bind, Except.bind, refuseIf, hlen, true_or, if_true]
    rw [REGFS_VK_SIZE] at hlen
    have hsig : lostLe16 (disk.from off) 0 = lostLe16 (data.disk.from off) 0 :=
      lostLe16_congr hdisk (i := off) (by omega) (by omega)
    have hsize : lostLe32 (disk.from off) 4 = lostLe32 (data.disk.from off) 4 :=
      lostLe32_congr hdisk (i := off + 4) (by omega) (by omega)
    have hoffset : lostLe32 (disk.from off) 8 = lostLe32 (data.disk.from off) 8 :=
      lostLe32_congr hdisk (i := off + 8) (by omega) (by omega)
    have hinline : ∀ n, (List.range (min n 4)).map ((disk.from off).from 8)
        = (List.range (min n 4)).map ((data.disk.from off).from 8) := by
      refine fun n => List.map_congr_left fun i hi => hdisk _ (by omega) ?_
      have hi' := List.mem_range.mp hi
      omega
    simp only [Except.map, bind, Except.bind, hsig, hsize, hoffset, hinline]
    split
    · rfl
    split
    · rfl
    split
    · rfl
    rw [regfsCellAt_congr hdisk]
    cases hdata : regfsCellAt data (lostLe32 (data.disk.from off) 8) with
    | error e => rfl
    | ok run =>
      obtain ⟨diskOff, cellLen⟩ := run
      obtain ⟨hoff', hend'⟩ := regfsCellAt_eq_ok hdata
      simp only
      rw [regfsIsDb_congr hdisk (by omega) hend']
      by_cases hdb : regfsIsDb data (lostLe32 (data.disk.from off) 4) diskOff cellLen = true
      · have hlen' : 8 ≤ cellLen := by
          simp only [regfsIsDb, Bool.and_eq_true, decide_eq_true_eq] at hdb
          exact hdb.1.1.2
        rw [if_pos hdb, if_pos hdb, lostLe32_congr hdisk (by omega) (by omega),
          lostLe16_congr hdisk (by omega) (by omega), hrecord, hrecord']
        cases hlist : regfsCellAt data (lostLe32 data.disk (diskOff + 4)) with
        | error e => rfl
        | ok run =>
          obtain ⟨listOff, listLen⟩ := run
          obtain ⟨hlistOff, hlistEnd⟩ := regfsCellAt_eq_ok hlist
          simp only [Except.map]
          rw [regfsSegments_congr hdisk (by omega) (by omega)]
      · rw [if_neg hdb, if_neg hdb]

end Congr

/-! ### The size in the listing -/

theorem regfsEmitValues_size {mtime : ℤ} {earlier : List Name} {values : List RegfsValue}
    {items : List (FshelpItem RegfsNode)} (h : regfsEmitValues mtime earlier values = some items) :
    ∀ item ∈ items, item.node.size = 0 := by
  induction values generalizing earlier items with
  | nil =>
    obtain rfl := Option.some.inj h
    exact fun item hitem => by cases hitem
  | cons v values ih =>
    simp only [regfsEmitValues, Option.bind_eq_bind, Option.bind_eq_some_iff,
      Option.some.injEq] at h
    obtain ⟨name, -, rest, hrest, rfl⟩ := h
    intro item hitem
    rcases List.mem_cons.mp hitem with rfl | hitem
    · rfl
    · exact ih hrest item hitem

theorem regfsWalkSubkeys_size {data : RegfsData} {depth off : ℕ} {item : FshelpItem RegfsNode}
    (h : item ∈ regfsWalkSubkeys data depth off) : item.node.size = 0 := by
  induction depth generalizing off with
  | zero => cases h
  | succ depth ih =>
    rw [regfsWalkSubkeys] at h
    simp only at h
    split at h
    · cases h
    · split at h
      · cases h
      · split at h
        · cases h
        · obtain ⟨i, -, hi⟩ := List.mem_flatMap.mp h
          split at hi
          · exact ih hi
          · rw [Option.mem_toList, regfsEmitKey] at hi
            split at hi
            · cases hi
            · split at hi
              · cases hi
              · obtain rfl := Option.some.inj hi
                rfl

theorem regfsIterate_size {data : RegfsData} {node : RegfsNode} {item : FshelpItem RegfsNode}
    (h : item ∈ regfsIterate data node) : item.node.size = 0 := by
  rw [regfsIterate] at h
  cases hdir : regfsIterateDir data node.cell with
  | none =>
    rw [hdir] at h
    cases h
  | some items =>
    rw [hdir, Option.getD_some] at h
    simp only [regfsIterateDir, Option.bind_eq_bind, Option.bind_eq_some_iff,
      Option.some.injEq] at hdir
    obtain ⟨values, hvalues, rfl⟩ := hdir
    rcases List.mem_append.mp h with h | h
    · rw [regfsKeyEntries] at h
      split at h
      · cases h
      · split at h
        · cases h
        · exact regfsWalkSubkeys_size h
    · exact regfsEmitValues_size hvalues item h

/-- What a listed and opened value should be: the file has the listed size, reads return the data of
the record in `cell`, and what is read lies in allocated cells and in the hive bins. -/
structure RegfsSizeOk (data : RegfsData) (listed : Option ℕ) (cell : ℕ) (file : RegfsFile) :
  Prop where
  size_eq : listed = some file.size
  reads : ∀ pos len, regfsRead data file pos len = ((regfsValueData data cell).drop pos).take len
  inline_in : file.inlineData ≠ [] → ∃ off, file.inlineData = regfsBytes data.disk (off, file.size)
    ∧ RegfsAllocated data (off, file.size)
  segs_in : ∀ pos len, ∀ span ∈ regfsSpans file.segs pos len, RegfsAllocated data span
  bins_only : ∀ disk : Buf, (∀ i, REGFS_HBINS_BASE ≤ i → i < REGFS_HBINS_BASE + data.hbinsSize →
    disk i = data.disk i) → regfsOpenValue { data with disk } cell = .ok file

/-- A value has the listed size if and only if it stores no bytes. -/
theorem regfsSizeOk_iff {data : RegfsData} {path name : Name} {listing : List (Name × RegfsDirInfo)}
    {info : RegfsDirInfo} (hdir : regfsDir data path = .ok listing)
      (hlisted : (name, info) ∈ listing)
    (hset : info.size.isSome = true) {node : RegfsNode} {file : RegfsFile}
    (hfind : fshelpFindFile (regfsIterate data) (regfsRootNode data) (path ++ 0x2f :: name) .reg
      = .ok node) (hopen : regfsOpen data (path ++ 0x2f :: name) = .ok file) :
    RegfsSizeOk data info.size node.cell file ↔ regfsValueData data node.cell = [] := by
  have hvalue : regfsOpenValue data node.cell = .ok file := by
    rw [regfsOpen, hfind] at hopen
    exact hopen
  have hzero : info.size = some 0 := by
    simp only [regfsDir, bind_eq_ok_iff, Except.ok.injEq] at hdir
    obtain ⟨dir, -, rfl⟩ := hdir
    obtain ⟨item, hitem, heq⟩ := List.mem_map.mp hlisted
    obtain ⟨-, rfl⟩ := Prod.mk.inj heq
    rw [regfsDirInfo] at hset ⊢
    simp only at hset ⊢
    split at hset
    · next hfile => rw [if_pos hfile, regfsIterate_size hitem]
    · cases hset
  obtain ⟨hsize, hinline, -, hsegs⟩ := regfsOpenValue_spec hvalue
  constructor
  · intro h
    have heq := h.size_eq
    rw [hzero, Option.some.injEq] at heq
    rw [← List.length_eq_zero_iff, ← hsize, ← heq]
  · intro hnil
    rw [hnil, List.length_nil] at hsize
    refine ⟨by rw [hzero, hsize], regfsRead_eq hvalue, fun h => (hinline h).2,
      fun pos len span hspan => ?_, fun disk hdisk => ?_⟩
    · obtain ⟨seg, hseg, hfirst, hlast⟩ := regfsSpans_contained hspan
      exact (hsegs seg hseg).of_part hfirst hlast
    · rw [regfsOpenValue_congr hdisk, hvalue]

/-- A value of one byte is listed with the size zero. -/
theorem regfsSizeOk_one_byte :
    (regfsMount (regfsClashDisk 0x32 1) none).toOption.map RegfsData.hbinsSize = some 0x1000
      ∧ ¬ ∀ (data : RegfsData) (path name : Name) (listing : List (Name × RegfsDirInfo))
        (info : RegfsDirInfo) (node : RegfsNode) (file : RegfsFile),
        regfsDir data path = .ok listing → (name, info) ∈ listing → info.size.isSome = true →
        fshelpFindFile (regfsIterate data) (regfsRootNode data) (path ++ 0x2f :: name) .reg
          = .ok node →
        regfsOpen data (path ++ 0x2f :: name) = .ok file →
        RegfsSizeOk data info.size node.cell file := by
  refine ⟨by decide +kernel, fun h => ?_⟩
  have hdir := eq_ok_get (x := regfsDir (regfsClashHive 0x32 1) [0x2f]) (by decide +kernel)
  have hfind := eq_ok_get (x := fshelpFindFile (regfsIterate (regfsClashHive 0x32 1))
    (regfsRootNode (regfsClashHive 0x32 1)) [0x2f, 0x2f, 0x61, 0x7e, 0x31] .reg) (by decide +kernel)
  have hopen := eq_ok_get (x := regfsOpen (regfsClashHive 0x32 1) [0x2f, 0x2f, 0x61, 0x7e, 0x31])
    (by decide +kernel)
  have hsize := (h _ [0x2f] [0x61, 0x7e, 0x31] _ ⟨false, false, -(REGFS_EPOCH_BIAS : ℤ), some 0⟩ _ _
    hdir (by decide +kernel) rfl hfind hopen).size_eq
  revert hsize
  decide +kernel

/-- A value without data. -/
theorem regfsSizeOk_no_byte :
    RegfsSizeOk (regfsClashHive 0x32 0) (some 0) 312 ⟨0, [], []⟩ := by
  have hdir := eq_ok_get (x := regfsDir (regfsClashHive 0x32 0) [0x2f]) (by decide +kernel)
  have hfind : fshelpFindFile (regfsIterate (regfsClashHive 0x32 0))
      (regfsRootNode (regfsClashHive 0x32 0)) [0x2f, 0x2f, 0x61, 0x7e, 0x31] .reg
      = .ok ⟨312, -(REGFS_EPOCH_BIAS : ℤ), true, false, 0⟩ := by
    refine (eq_ok_get (by decide +kernel)).trans (congrArg Except.ok ?_)
    decide +kernel
  have hopen : regfsOpen (regfsClashHive 0x32 0) [0x2f, 0x2f, 0x61, 0x7e, 0x31]
    = .ok ⟨0, [], []⟩ := by
    refine (eq_ok_get (by decide +kernel)).trans (congrArg Except.ok ?_)
    decide +kernel
  exact (@regfsSizeOk_iff _ [0x2f] [0x61, 0x7e, 0x31] _ ⟨false, false, -(REGFS_EPOCH_BIAS : ℤ),
    some 0⟩ hdir (by decide +kernel) rfl _ _ hfind hopen).mpr (by decide +kernel)

end FsRover
