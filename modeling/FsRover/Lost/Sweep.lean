import FsRover.Lost.Coverage
import FsRover.Lost.Entries
import FsRover.Lost.Openable
import FsRover.Lost.Progress

/-!
# What a deep search has looked at

The deep search walks the device in chunks. As long as it goes on at sectors, each sector of the
device outside the readable partitions is examined once it lies behind the position, with the
bytes of the device; and so is what lies before each place where `lost_next` stops.

## Main definitions

* `FsRover.LostSearch.OnSectors` : after a readable partition a sector begins.
* `FsRover.LostSwept` : what lies behind the position was examined.

## Main results

* `FsRover.lostDeepBuf_eq` : the buffer of a chunk holds the bytes of the device.
* `FsRover.lostScan_sweeps` : a deep search that is over has examined every sector and every end.
-/

namespace FsRover

variable {env : LostSearch}

/-! ### What a chunk examines -/

theorem LostAct.deep_mem {hitOk : LostHit → Prop} {entryOk : ℕ → ℕ → Prop} {s s' : LostScan}
    (h : LostAct env hitOk entryOk s s') (x : ℕ) (buf : Buf) :
    (.sector x buf ∈ s'.trace ↔ .sector x buf ∈ s.trace)
      ∧ (.tail x buf ∈ s'.trace ↔ .tail x buf ∈ s.trace) := by
  cases h with
  | hint => simp
  | table => simp
  | jump => exact ⟨Iff.rfl, Iff.rfl⟩
  | record => exact ⟨Iff.rfl, Iff.rfl⟩

theorem LostActs.deep_mem {hitOk : LostHit → Prop} {entryOk : ℕ → ℕ → Prop} {s s' : LostScan}
    (h : LostActs env hitOk entryOk s s') (x : ℕ) (buf : Buf) :
    (.sector x buf ∈ s'.trace ↔ .sector x buf ∈ s.trace)
      ∧ (.tail x buf ∈ s'.trace ↔ .tail x buf ∈ s.trace) :=
  Runs.relates (R := fun s s' : LostScan => (.sector x buf ∈ s'.trace ↔ .sector x buf ∈ s.trace)
      ∧ (.tail x buf ∈ s'.trace ↔ .tail x buf ∈ s.trace)) (fun _ => ⟨Iff.rfl, Iff.rfl⟩)
    (fun _ _ _ hab hbc => ⟨hbc.1.trans hab.1, hbc.2.trans hab.2⟩)
      (fun _ _ hab => hab.deep_mem x buf)
    h

theorem lostDeepSector_mem (deep : Buf) (base x : ℕ) (inRange positional : Bool) (s : LostScan)
    (y : ℕ) (buf : Buf) :
    (.sector y buf ∈ (lostDeepSector env deep base x inRange positional s).trace ↔
      .sector y buf ∈ s.trace ∨ inRange = false ∧ x < env.size ∧ y = x
        ∧ buf = deep.from (LOST_TAIL + (x - base)))
    ∧ (.tail y buf ∈ (lostDeepSector env deep base x inRange positional s).trace ↔
      .tail y buf ∈ s.trace ∨ positional = true ∧ lostTailLen env ≤ x ∧ y = x
        ∧ buf = deep.from (LOST_TAIL + (x - base) - lostTailLen env)) := by
  set noted : LostScan := if (positional && lostTailLen env ≤ x) = true
    then { s with trace := .tail x (deep.from (LOST_TAIL + (x - base) - lostTailLen env)) ::
      s.trace } else s with hnoted
  have hsector : (.sector y buf ∈ noted.trace ↔ .sector y buf ∈ s.trace) := by
    rw [hnoted]
    split_ifs <;> simp
  have htail : (.tail y buf ∈ noted.trace ↔ .tail y buf ∈ s.trace
      ∨ positional = true ∧ lostTailLen env ≤ x ∧ y = x
        ∧ buf = deep.from (LOST_TAIL + (x - base) - lostTailLen env)) := by
    rw [hnoted]
    by_cases hpos : (positional && lostTailLen env ≤ x) = true
    · rw [if_pos hpos]
      simp only [Bool.and_eq_true, decide_eq_true_eq] at hpos
      simp [hpos.1, hpos.2, or_comm]
    · rw [if_neg hpos]
      simp only [Bool.and_eq_true, decide_eq_true_eq, not_and] at hpos
      exact ⟨Or.inl, fun h => h.resolve_right fun h => hpos h.1 h.2.1⟩
  unfold lostDeepSector
  dsimp only
  rw [← hnoted]
  by_cases hexam : (!inRange && x < env.size) = true
  · rw [if_pos hexam]
    have hacts := @lostExamine_acts env (fun _ => False) (fun _ _ => True)
      { noted with trace := .sector x (deep.from (LOST_TAIL + (x - base))) :: noted.trace } x
      (deep.from (LOST_TAIL + (x - base))) (min (env.size - x) LOST_WINDOW) positional
      fun _ _ _ => trivial
    obtain ⟨hsectors, htails⟩ := hacts.deep_mem y buf
    rw [hsectors, htails, ← htail]
    simp only [Bool.and_eq_true, Bool.not_eq_true', decide_eq_true_eq] at hexam
    simp [hsector, hexam.1, hexam.2, or_comm]
  · rw [if_neg hexam]
    dsimp only
    rw [hsector, htail]
    simp only [Bool.and_eq_true, Bool.not_eq_true', decide_eq_true_eq, not_and] at hexam
    exact ⟨⟨Or.inl, fun h => h.resolve_right fun h => hexam h.1 h.2.1⟩, Iff.rfl⟩

/-- Sector `k + 1` from `x` on is sector `k` from the next one on. -/
theorem lostSector_succ (x k ss : ℕ) : x + (k + 1) * ss = x + ss + k * ss := by
  rw [Nat.succ_mul]
  omega

/-- The sectors of a chunk are examined, unless a readable partition starts it. -/
theorem lostDeepSectors_mem (deep : Buf) (base : ℕ) (inRange : Bool) (x candidate : ℕ)
    (s : LostScan) (n y : ℕ) (buf : Buf) :
    .sector y buf ∈ (lostDeepSectors env deep base inRange x candidate s n).trace ↔
      .sector y buf ∈ s.trace ∨ inRange = false ∧ y < env.size
        ∧ (∃ k < n, y = x + k * env.sectorSize) ∧ buf = deep.from (LOST_TAIL + (y - base)) := by
  induction n generalizing x candidate s with
  | zero => simp [lostDeepSectors]
  | succ n ih =>
    unfold lostDeepSectors
    dsimp only
    rw [ih, (lostDeepSector_mem deep base x inRange _ s y buf).1, or_assoc]
    refine or_congr Iff.rfl ⟨?_, ?_⟩
    · rintro (⟨hin, hlt, rfl, hbuf⟩ | ⟨hin, hlt, ⟨k, hk, hy⟩, hbuf⟩)
      · exact ⟨hin, hlt, ⟨0, Nat.succ_pos n, by simp⟩, hbuf⟩
      · exact ⟨hin, hlt, ⟨k + 1, Nat.succ_lt_succ hk, hy.trans (lostSector_succ _ _ _).symm⟩, hbuf⟩
    · rintro ⟨hin, hlt, ⟨k, hk, hy⟩, hbuf⟩
      rcases k with _ | k
      · rw [Nat.zero_mul, Nat.add_zero] at hy
        exact Or.inl ⟨hin, hy ▸ hlt, hy, hy ▸ hbuf⟩
      · exact Or.inr ⟨hin, hlt, ⟨k, Nat.lt_of_succ_lt_succ hk,
          hy.trans (lostSector_succ _ _ _)⟩, hbuf⟩

/-- The sectors of a chunk at which `lost_next` stops are examined for the end of a volume. The
cursor never passes such a sector, and is on it when the loop comes to it. -/
theorem lostDeepSectors_tail {deep : Buf} {base : ℕ} {inRange : Bool} {x candidate : ℕ}
    {s : LostScan} {n k : ℕ} (hhints : LostHints env s.hints)
    (hstop : LostStop env s.hints (x + k * env.sectorSize)) (hk : k < n)
    (hcandidate : candidate ≤ x + k * env.sectorSize)
    (htail : lostTailLen env ≤ x + k * env.sectorSize) :
    .tail (x + k * env.sectorSize)
        (deep.from (LOST_TAIL + (x + k * env.sectorSize - base) - lostTailLen env))
      ∈ (lostDeepSectors env deep base inRange x candidate s n).trace := by
  induction n generalizing x candidate s k with
  | zero => exact absurd hk (Nat.not_lt_zero k)
  | succ n ih =>
    unfold lostDeepSectors
    dsimp only
    set next := if candidate < x then lostNext env s.hints x else candidate with hnext
    have hle : next ≤ x + k * env.sectorSize := by
      rw [hnext]
      split_ifs
      · exact hstop.next_le hhints (Nat.le_add_right _ _)
      · exact hcandidate
    have hsector := @lostDeepSector_acts env (fun _ => True) deep base x inRange
      (next == x) s fun _ _ => trivial
    have hrest := @lostDeepSectors_acts env (fun _ => True) deep base inRange
      (x + env.sectorSize) next (lostDeepSector env deep base x inRange (next == x) s) n
      fun _ _ _ => trivial
    rcases k with _ | k
    · rw [Nat.zero_mul, Nat.add_zero] at *
      have heq : next = x := by
        rw [hnext] at hle ⊢
        split_ifs at hle ⊢ with hbefore
        · exact hstop.2
        · omega
      refine hrest.grows.trace.mem ?_
      rw [(lostDeepSector_mem deep base x inRange _ s x _).2]
      exact Or.inr ⟨by simpa using heq, htail, rfl, rfl⟩
    · rw [lostSector_succ] at hstop hle htail ⊢
      exact ih (hsector.hints hhints)
        (hstop.mono hhints (hsector.hints hhints) hsector.grows.hints)
        (Nat.lt_of_succ_lt_succ hk) hle htail

/-! ### The buffer of a chunk -/

/-- When every read succeeds, the buffer holds the bytes from `LOST_TAIL` before the chunk up to
`last`, and zeros elsewhere. -/
theorem lostDeepBuf_eq (hreads : ∀ offset len, env.readOk offset len = true) (base last j : ℕ) :
    lostDeepBuf env base last j =
      if LOST_TAIL ≤ base + j ∧ base + j < last + LOST_TAIL then env.byte (base + j - LOST_TAIL)
      else 0 := by
  unfold lostDeepBuf lostReadFill
  simp only [hreads, if_true]
  generalize LOST_TAIL = tail
  by_cases hbase : tail < base
  · rw [if_pos hbase]
    split_ifs with hin hout hout
    · congr 1
      omega
    · omega
    · omega
    · rfl
  · rw [if_neg hbase]
    split_ifs with hin hout hout
    · congr 1
      omega
    · omega
    · omega
    · rfl

/-- The end of a chunk leaves room for the window behind it. -/
theorem lostDeepEnd_window (hroom : env.size + LOST_DEEP_CHUNK < 2 ^ 64) (base : ℕ)
    (inRange : Bool) :
    u64 (lostDeepEnd env base inRange + LOST_WINDOW)
      = lostDeepEnd env base inRange + LOST_WINDOW := by
  have hle := @lostDeepEnd_le env base inRange
  have hwindow : LOST_WINDOW < LOST_DEEP_CHUNK := by decide
  exact u64_of_lt (by omega)

section Chunk

variable (hroom : env.size + LOST_DEEP_CHUNK < 2 ^ 64)
  (hreads : ∀ offset len, env.readOk offset len = true) {base x : ℕ} {inRange : Bool}
include hroom hreads

/-- The bytes from a sector of the chunk on, with zeros past the end of the device. -/
theorem lostDeepBuf_place (hle : base ≤ x) (hlt : x < lostDeepEnd env base inRange) {i : ℕ}
    (hi : i < LOST_WINDOW) :
    (lostDeepBuf env base (min (u64 (lostDeepEnd env base inRange + LOST_WINDOW)) env.size)).from
        (LOST_TAIL + (x - base)) i = if x + i < env.size then env.byte (x + i) else 0 := by
  unfold Buf.from
  rw [lostDeepBuf_eq hreads, lostDeepEnd_window hroom]
  generalize lostDeepEnd env base inRange = endAt at *
  generalize LOST_WINDOW = window at *
  generalize LOST_TAIL = tail
  have hplace : base + (tail + (x - base) + i) = x + i + tail := by omega
  rw [hplace, Nat.add_sub_cancel]
  refine if_congr ?_ rfl rfl
  rw [Nat.add_lt_add_iff_right, lt_min_iff]
  omega

theorem lostDeepBuf_before (hss : env.sectorSize ≤ LOST_TAIL) (hle : base ≤ x)
    (hlt : x < lostDeepEnd env base inRange) (htail : lostTailLen env ≤ x) {i : ℕ}
    (hi : i < lostTailLen env) :
    (lostDeepBuf env base (min (u64 (lostDeepEnd env base inRange + LOST_WINDOW)) env.size)).from
        (LOST_TAIL + (x - base) - lostTailLen env) i = env.byte (x - lostTailLen env + i) := by
  have hsize := @lostDeepEnd_le env base inRange
  have hlen : lostTailLen env ≤ LOST_TAIL := max_le hss (by decide)
  unfold Buf.from
  rw [lostDeepBuf_eq hreads, lostDeepEnd_window hroom]
  generalize lostTailLen env = len at *
  generalize lostDeepEnd env base inRange = endAt at *
  generalize LOST_WINDOW = window at *
  generalize LOST_TAIL = tail at *
  have hplace : base + (tail + (x - base) - len + i) = x - len + i + tail := by omega
  rw [hplace, Nat.add_sub_cancel, if_pos]
  refine ⟨Nat.le_add_left _ _, ?_⟩
  rw [Nat.add_lt_add_iff_right, lt_min_iff]
  omega

end Chunk

/-! ### Where the search goes on -/

/-- Where the deep search goes on after it met a readable partition. -/
def LostRange.resume (r : LostRange) : ℕ := if r.start < r.endAt then r.endAt else r.start

variable (env) in
/-- Wherever the deep search goes on after it met a readable partition, a sector begins. -/
def LostSearch.OnSectors : Prop :=
  ∀ r ∈ env.ranges, r.readable = true → r.resume < env.size → r.resume % env.sectorSize = 0

variable (env) in
/-- The deep search is at a sector, behind the last one, or at a readable partition. -/
def LostOnSector (pos : ℕ) : Prop :=
  pos % env.sectorSize = 0 ∨ env.size ≤ pos ∨ (lostRangeAt env pos true).isSome = true

/-- A chunk ends at its full length, past the device end, or before a readable partition. -/
theorem lostDeepEnd_cases (base : ℕ) :
    lostDeepEnd env base false = env.size + 1
      ∨ lostDeepEnd env base false = u64 (base + LOST_DEEP_CHUNK)
      ∨ ∃ r ∈ env.ranges, r.readable = true ∧ base < r.start
        ∧ lostDeepEnd env base false = r.start := by
  have hfold : ∀ (ranges : List LostRange) (endAt : ℕ),
      ranges.foldl (fun e r => if r.readable ∧ base < r.start ∧ r.start < e then r.start else e)
        endAt = endAt ∨ ∃ r ∈ ranges, r.readable = true ∧ base < r.start
        ∧ ranges.foldl (fun e r => if r.readable ∧ base < r.start ∧ r.start < e then r.start else e)
          endAt = r.start := by
    intro ranges
    induction ranges with
    | nil => exact fun _ => Or.inl rfl
    | cons a ranges ih =>
      intro endAt
      rw [List.foldl_cons]
      rcases ih (if a.readable ∧ base < a.start ∧ a.start < endAt then a.start else endAt) with
        h | ⟨r, hr, hrest⟩
      · rw [h]
        split_ifs with hcut
        · exact Or.inr ⟨a, List.mem_cons_self, hcut.1, hcut.2.1, rfl⟩
        · exact Or.inl rfl
      · exact Or.inr ⟨r, List.mem_cons_of_mem _ hr, hrest⟩
  unfold lostDeepEnd
  rw [if_neg Bool.false_ne_true]
  dsimp only
  split_ifs
  · exact Or.inl rfl
  · exact Or.inr (hfold env.ranges _)

/-- A readable partition that is not empty contains its start. -/
theorem lostRangeAt_isSome {r : LostRange} (hr : r ∈ env.ranges) (hreadable : r.readable = true)
    {x : ℕ} (hstart : r.start ≤ x) (hend : x < r.endAt) :
    (lostRangeAt env x true).isSome = true := by
  unfold lostRangeAt
  rw [List.find?_isSome]
  exact ⟨r, hr, by simp [hreadable, hstart, hend]⟩

theorem LostOnSector.next (hroom : env.size + LOST_DEEP_CHUNK < 2 ^ 64)
    (hsectors : env.OnSectors) {base : ℕ} (hle : base ≤ env.size) (h : LostOnSector env base) :
    LostOnSector env (lostDeepNext env base) := by
  unfold lostDeepNext
  cases hr : lostRangeAt env base true with
  | some r =>
    obtain ⟨hmem, hreadable, hstart, hend⟩ := lostRangeAt_spec hr
    have hresume : r.resume = r.endAt := if_pos (lt_of_le_of_lt hstart hend)
    dsimp only
    rcases Nat.lt_or_ge r.endAt env.size with hlt | hge
    · exact Or.inl (hresume ▸ hsectors r hmem hreadable (hresume.symm ▸ hlt))
    · exact Or.inr (Or.inl hge)
  | none =>
    dsimp only
    rcases @lostDeepEnd_cases env base with he | he | ⟨r, hmem, hreadable, hbase, he⟩
    · rw [he]
      exact Or.inr (Or.inl (Nat.le_succ _))
    · rw [he, u64_of_lt (lt_of_le_of_lt (Nat.add_le_add_right hle _) hroom)]
      rcases h with h | h | h
      · refine Or.inl (Nat.mod_eq_zero_of_dvd (Nat.dvd_add (Nat.dvd_of_mod_eq_zero h) ?_))
        have hdvd := env.sectorSize_dvd (k := 22) (by decide)
        exact hdvd
      · exact Or.inr (Or.inl (h.trans (Nat.le_add_right _ _)))
      · rw [hr] at h
        cases h
    · rw [he]
      rcases Nat.lt_or_ge r.start r.endAt with hlt | hge
      · exact Or.inr (Or.inr (lostRangeAt_isSome hmem hreadable le_rfl hlt))
      · have hresume : r.resume = r.start := if_neg (not_lt.mpr hge)
        rcases Nat.lt_or_ge r.start env.size with hlt | hge
        · exact Or.inl (hresume ▸ hsectors r hmem hreadable (hresume.symm ▸ hlt))
        · exact Or.inr (Or.inl hge)

/-! ### Chunks -/

variable (env) in
/-- The sector at `x` was examined with the bytes of the device, and zeros past its end. -/
def LostExamined (trace : List LostEvent) (x : ℕ) : Prop :=
  ∃ buf, .sector x buf ∈ trace
    ∧ ∀ i < LOST_WINDOW, buf i = if x + i < env.size then env.byte (x + i) else 0

variable (env) in
/-- What lies before `c` was examined for the end of a volume. -/
def LostEndExamined (trace : List LostEvent) (c : ℕ) : Prop :=
  ∃ buf, .tail c buf ∈ trace
    ∧ ∀ i < lostTailLen env, buf i = env.byte (c - lostTailLen env + i)

theorem LostExamined.mono {old new : List LostEvent} {x : ℕ} (h : LostExamined env old x)
    (hsuffix : old <:+ new) : LostExamined env new x :=
  let ⟨buf, hmem, hbytes⟩ := h
  ⟨buf, hsuffix.mem hmem, hbytes⟩

theorem LostEndExamined.mono {old new : List LostEvent} {c : ℕ} (h : LostEndExamined env old c)
    (hsuffix : old <:+ new) : LostEndExamined env new c :=
  let ⟨buf, hmem, hbytes⟩ := h
  ⟨buf, hsuffix.mem hmem, hbytes⟩

/-- A sector between the base of a chunk and its end is one of the chunk's. -/
theorem exists_lostSector {base x : ℕ} {inRange : Bool} (hbase : base % env.sectorSize = 0)
    (hx : x % env.sectorSize = 0) (hle : base ≤ x) (hlt : x < lostDeepEnd env base inRange) :
    ∃ k < (lostDeepEnd env base inRange - base + env.sectorSize - 1) / env.sectorSize,
      x = base + k * env.sectorSize := by
  have hss := env.sectorSize_pos
  obtain ⟨k, hk⟩ : env.sectorSize ∣ x - base :=
    Nat.dvd_sub (Nat.dvd_of_mod_eq_zero hx) (Nat.dvd_of_mod_eq_zero hbase)
  rw [Nat.mul_comm] at hk
  refine ⟨k, Nat.lt_of_succ_le ((Nat.le_div_iff_mul_le hss).mpr ?_), by omega⟩
  rw [Nat.succ_mul]
  omega

/-- The trace of a chunk: that of its sector loop, unless it starts inside a partition. -/
theorem lostDeepChunk_trace (s : LostScan) :
    (lostRangeAt env s.pos true = none
        ∧ (lostDeepChunk env s).trace = (lostDeepChunk.lostDeepRun env s s.pos false).trace)
      ∨ ∃ r, lostRangeAt env s.pos true = some r
        ∧ (r.start ≠ s.pos ∧ (lostDeepChunk env s).trace = s.trace
          ∨ r.start = s.pos
            ∧ (lostDeepChunk env s).trace
              = (lostDeepChunk.lostDeepRun env s s.pos true).trace) := by
  unfold lostDeepChunk
  dsimp only
  cases hr : lostRangeAt env s.pos true with
  | none => exact Or.inl ⟨rfl, rfl⟩
  | some r =>
    refine Or.inr ⟨r, rfl, ?_⟩
    by_cases hne : r.start = s.pos
    · refine Or.inr ⟨hne, ?_⟩
      dsimp only
      rw [if_neg (not_not.mpr hne)]
    · refine Or.inl ⟨hne, ?_⟩
      dsimp only
      rw [if_pos hne]

section Examined

variable (hroom : env.size + LOST_DEEP_CHUNK < 2 ^ 64) {s : LostScan} (hpos : s.pos ≤ env.size)
  (hsector : LostOnSector env s.pos)
include hroom hpos hsector

theorem lostDeepChunk_examined (hreads : ∀ offset len, env.readOk offset len = true) {x : ℕ}
    (hx : x % env.sectorSize = 0) (hlt : x < env.size) (hle : s.pos ≤ x)
    (hnext : x < lostDeepNext env s.pos) (hout : lostRangeAt env x true = none) :
    LostExamined env (lostDeepChunk env s).trace x := by
  rcases @lostDeepChunk_trace env s with ⟨hnone, htrace⟩ | ⟨r, hr, -⟩
  · have hend : x < lostDeepEnd env s.pos false := by
      unfold lostDeepNext at hnext
      rwa [hnone] at hnext
    have hbase : s.pos % env.sectorSize = 0 := by
      rcases hsector with h | h | h
      · exact h
      · omega
      · rw [hnone] at h
        cases h
    refine ⟨_, ?_, fun i hi => lostDeepBuf_place hroom hreads hle hend hi⟩
    rw [htrace]
    unfold lostDeepChunk.lostDeepRun
    dsimp only
    rw [lostDeepSectors_mem]
    exact Or.inr ⟨rfl, hlt, exists_lostSector hbase hx hle hend, rfl⟩
  · -- the chunk starts in a partition that reaches past `x`
    obtain ⟨hmem, hreadable, hstart, -⟩ := lostRangeAt_spec hr
    unfold lostDeepNext at hnext
    rw [hr] at hnext
    have hin := lostRangeAt_isSome hmem hreadable (hstart.trans hle) hnext
    rw [hout] at hin
    cases hin

theorem lostDeepChunk_endExamined (hreads : ∀ offset len, env.readOk offset len = true)
    (hss : env.sectorSize ≤ LOST_TAIL) (hhints : LostHints env s.hints) {c : ℕ}
    (hstop : LostStop env s.hints c) (hle : s.pos ≤ c) (hnext : c < lostDeepNext env s.pos)
    (htail : lostTailLen env ≤ c) (hin : ¬ LostInside env c) :
    LostEndExamined env (lostDeepChunk env s).trace c := by
  have hc := hstop.mod hhints
  have hrun : ∀ inRange, s.pos % env.sectorSize = 0 → c < lostDeepEnd env s.pos inRange →
      LostEndExamined env (lostDeepChunk.lostDeepRun env s s.pos inRange).trace c := by
    intro inRange hbase hend
    obtain ⟨k, hk, hplace⟩ := exists_lostSector hbase hc hle hend
    refine ⟨_, ?_, fun i hi => lostDeepBuf_before hroom hreads hss hle hend htail hi⟩
    unfold lostDeepChunk.lostDeepRun
    dsimp only
    have hcursor := hstop.next_le hhints hle
    rw [hplace] at hstop hcursor htail ⊢
    exact lostDeepSectors_tail hhints hstop hk hcursor htail
  rcases @lostDeepChunk_trace env s with ⟨hnone, htrace⟩ | ⟨r, hr, hcase⟩
  · have hend : c < lostDeepEnd env s.pos false := by
      unfold lostDeepNext at hnext
      rwa [hnone] at hnext
    rw [htrace]
    refine hrun false ?_ hend
    rcases hsector with h | h | h
    · exact h
    · rwa [le_antisymm (hle.trans hstop.1) h, ← le_antisymm hstop.1 (h.trans hle)]
    · rw [hnone] at h
      cases h
  · obtain ⟨hmem, hreadable, hstart, -⟩ := lostRangeAt_spec hr
    unfold lostDeepNext at hnext
    rw [hr] at hnext
    have hcstart : r.start = c := by
      by_contra hne
      exact hin ⟨r, hmem, hreadable, lt_of_le_of_ne (hstart.trans hle) hne, hnext⟩
    have hbase : s.pos = c := le_antisymm hle (hcstart ▸ hstart)
    rcases hcase with ⟨hne, -⟩ | ⟨-, htrace⟩
    · exact absurd (hcstart.trans hbase.symm) hne
    · rw [htrace]
      exact hrun true (hbase ▸ hc) (hbase ▸ lt_lostDeepEnd hroom hpos)

omit hroom in
theorem lostDeepChunk_aligned (haligned : LostSectorsAligned env s.trace) :
    LostSectorsAligned env (lostDeepChunk env s).trace := by
  intro y buf hmem
  rcases @lostDeepChunk_trace env s with ⟨hnone, htrace⟩ | ⟨r, -, ⟨-, htrace⟩ | ⟨-, htrace⟩⟩
  · rw [htrace] at hmem
    unfold lostDeepChunk.lostDeepRun at hmem
    dsimp only at hmem
    rw [lostDeepSectors_mem] at hmem
    rcases hmem with hmem | ⟨-, hlt, ⟨k, -, rfl⟩, -⟩
    · exact haligned y buf hmem
    · rcases hsector with h | h | h
      · rw [Nat.add_mul_mod_self_right, h]
      · omega
      · rw [hnone] at h
        cases h
  · exact haligned y buf (htrace ▸ hmem)
  · rw [htrace] at hmem
    unfold lostDeepChunk.lostDeepRun at hmem
    dsimp only at hmem
    rw [lostDeepSectors_mem] at hmem
    exact haligned y buf (hmem.resolve_right fun h => absurd h.1 (by decide))

end Examined

/-! ### Searches -/

variable (env) in
/-- Every sector behind the position was examined, and sectors only. -/
structure LostSwept (s : LostScan) : Prop where
  pos : s.finishing = false → LostOnSector env s.pos
  aligned : LostSectorsAligned env s.trace
  examined : ∀ x, x % env.sectorSize = 0 → env.origin ≤ x → x < env.size →
    (s.finishing = false → x < s.pos) → lostRangeAt env x true = none →
    LostExamined env s.trace x

variable (env) in
/-- Once it lies behind the position, what lies before `c` was examined. -/
structure LostSweptEnd (c : ℕ) (s : LostScan) : Prop where
  stop : LostStop env s.hints c
  examined : (s.finishing = false → c < s.pos) → LostEndExamined env s.trace c

theorem LostActs.swept {hitOk : LostHit → Prop} {entryOk : ℕ → ℕ → Prop} {s s' : LostScan}
    (h : LostActs env hitOk entryOk s s') (hrun : s.finishing = true) (hs : LostSwept env s) :
    LostSwept env s' := by
  have hrun' : s'.finishing = true := (LostActs.frame h).finishing_eq.trans hrun
  refine ⟨fun h => absurd h (by simp [hrun']), fun x buf hmem => ?_,
    fun x hx horigin hlt _ hout => ?_⟩
  · exact hs.aligned x buf (((LostActs.deep_mem h) x buf).1.mp hmem)
  · exact (hs.examined x hx horigin hlt (fun h => absurd h (by simp [hrun])) hout).mono
      (LostActs.frame h).trace_suffix

section Steps

variable (hdeep : env.deep = true) (hroom : env.size + LOST_DEEP_CHUNK < 2 ^ 64)
  (hreads : ∀ offset len, env.readOk offset len = true) (hsectors : env.OnSectors)
include hdeep hroom hreads hsectors

theorem LostStep.swept {s s' : LostScan} (h : LostStep env s s')
    (hover : s.done = true → s.finishing = true) (hs : LostSwept env s) : LostSwept env s' := by
  cases h with
  | clamp hend =>
    refine ⟨fun _ => Or.inr (Or.inl le_rfl), hs.aligned, fun x hx horigin hlt _ hout => ?_⟩
    refine hs.examined x hx horigin hlt (fun hrun => ?_) hout
    rcases hend with hend | hend
    · exact hlt.trans hend
    · exact absurd (hover hend) (by simp [hrun])
  | round h =>
    cases h with
    | finish _ _ hquick => exact absurd hdeep (by simp [hquick])
    | pass _ _ _ _ hquick => exact absurd hdeep (by simp [hquick])
    | misaligned _ _ _ hquick => exact absurd hdeep (by simp [hquick])
    | skipRange _ _ _ _ hquick => exact absurd hdeep (by simp [hquick])
    | visit _ _ _ _ _ hquick => exact absurd hdeep (by simp [hquick])
    | settle _ _ _ hpos =>
      exact ⟨fun h => (nomatch h), hs.aligned, fun x hx horigin hlt _ hout =>
        hs.examined x hx horigin hlt (fun _ => hlt.trans hpos) hout⟩
    | chunk _ hrun _ hpos =>
      have hsector := hs.pos hrun
      have hgrows := @lostDeepChunk_grows env s
      have hnext := @lostDeepChunk_pos env s
      have hrun' := (@lostDeepChunk_frame env s).finishing_eq.trans hrun
      refine ⟨fun _ => hnext ▸ hsector.next hroom hsectors hpos,
        lostDeepChunk_aligned hpos hsector hs.aligned, fun x hx horigin hlt hbehind hout => ?_⟩
      rcases Nat.lt_or_ge x s.pos with hold | hnew
      · exact (hs.examined x hx horigin hlt (fun _ => hold) hout).mono hgrows.trace
      · exact lostDeepChunk_examined hroom hpos hsector hreads hx hlt hnew
          (hnext ▸ hbehind hrun') hout
    | pending _ _ _ hrun _ hacts =>
      exact LostActs.swept hacts hrun ⟨hs.pos, hs.aligned, hs.examined⟩
    | entry _ _ _ hrun _ _ _ hacts =>
      exact LostActs.swept hacts hrun ⟨hs.pos, hs.aligned, hs.examined⟩
    | claimed => exact ⟨hs.pos, hs.aligned, hs.examined⟩
    | ends => exact ⟨hs.pos, hs.aligned, hs.examined⟩

omit hdeep hroom hreads hsectors in
theorem roverLostScanBegin_swept : LostSwept env (roverLostScanBegin env) := by
  obtain ⟨m, hacts, hm⟩ := @roverLostScanBegin_acts env
  have horigin : env.origin % env.sectorSize = 0 := by
    unfold LostSearch.origin
    split_ifs
    · exact Nat.mod_self _
    · exact Nat.zero_mod _
  have hrun : m.finishing = false := (LostActs.frame hacts).finishing_eq
  rw [hm]
  refine ⟨fun _ => Or.inl horigin, fun x buf hmem => ?_, fun x _ hle _ hbehind _ => ?_⟩
  · exact absurd (((LostActs.deep_mem hacts) x buf).1.mp hmem) List.not_mem_nil
  · exact absurd (hbehind hrun) (not_lt.mpr hle)

theorem LostReach.swept {s : LostScan} (h : LostReach env s) : LostSwept env s := by
  induction h with
  | refl => exact roverLostScanBegin_swept
  | tail hreach hab ih =>
    have hentries := LostReach.entries hreach
    exact hab.swept hdeep hroom hreads hsectors (fun hdone => (hentries.ended hdone).1) ih

theorem LostStep.sweptEnd {s s' : LostScan} (h : LostStep env s s') (hreach : LostReach env s)
    (hss : env.sectorSize ≤ LOST_TAIL) {c : ℕ} (htail : lostTailLen env ≤ c)
    (hin : ¬ LostInside env c) (hs : LostSweptEnd env c s) : LostSweptEnd env c s' := by
  have hswept := LostReach.swept hdeep hroom hreads hsectors hreach
  have hstop := hs.stop.mono hreach.hints (h.hints hreach.hints) h.grows.hints
  refine ⟨hstop, fun hbehind => ?_⟩
  have hgrows := h.grows
  cases h with
  | clamp hend =>
    refine hs.examined fun hrun => ?_
    rcases hend with hend | hend
    · exact lt_of_le_of_lt hs.stop.1 hend
    · exact absurd (hreach.entries.ended hend).1 (by simp [hrun])
  | round h =>
    cases h with
    | finish _ _ hquick => exact absurd hdeep (by simp [hquick])
    | pass _ _ _ _ hquick => exact absurd hdeep (by simp [hquick])
    | misaligned _ _ _ hquick => exact absurd hdeep (by simp [hquick])
    | skipRange _ _ _ _ hquick => exact absurd hdeep (by simp [hquick])
    | visit _ _ _ _ _ hquick => exact absurd hdeep (by simp [hquick])
    | settle _ _ _ hpos => exact hs.examined fun _ => lt_of_le_of_lt hs.stop.1 hpos
    | chunk _ hrun _ hpos =>
      have hrun' := (@lostDeepChunk_frame env s).finishing_eq.trans hrun
      have hnext := @lostDeepChunk_pos env s
      rcases Nat.lt_or_ge c s.pos with hold | hnew
      · exact (hs.examined fun _ => hold).mono hgrows.trace
      · exact lostDeepChunk_endExamined hroom hpos (hswept.pos hrun) hreads hss hreach.hints hs.stop
          hnew (hnext ▸ hbehind hrun') htail hin
    | pending _ _ _ hrun => exact (hs.examined fun h => absurd h (by simp [hrun])).mono hgrows.trace
    | entry _ _ _ hrun => exact (hs.examined fun h => absurd h (by simp [hrun])).mono hgrows.trace
    | claimed _ _ hrun => exact hs.examined fun h => absurd h (by simp [hrun])
    | ends _ hrun => exact hs.examined fun h => absurd h (by simp [hrun])

end Steps

/-- A deep search that is over, on a device that it can read and whose readable partitions end at
sectors, has examined every sector outside them from the start offset on, and the end before each
place where `lost_next` stopped when the search had yet to come to it. -/
theorem lostScan_sweeps (hdeep : env.deep = true) (hroom : env.size + LOST_DEEP_CHUNK < 2 ^ 64)
    (hreads : ∀ offset len, env.readOk offset len = true) (hsectors : env.OnSectors)
    {s : LostScan} (h : LostCalls env s) (hdone : s.done = true) :
    (∀ x, x % env.sectorSize = 0 → env.origin ≤ x → x < env.size →
      lostRangeAt env x true = none → LostExamined env s.trace x)
    ∧ (env.sectorSize ≤ LOST_TAIL → ∀ t, LostReach env t →
      Relation.ReflTransGen (LostStep env) t s → t.finishing = false →
      ∀ c, t.pos ≤ c → c ≤ env.size → lostNext env t.hints c = c → lostTailLen env ≤ c →
        ¬ LostInside env c → LostEndExamined env s.trace c) := by
  have hreach := h.reach
  have hrun := (hreach.entries.ended hdone).1
  constructor
  · intro x hx horigin hlt hout
    have hswept := LostReach.swept hdeep hroom hreads hsectors hreach
    exact hswept.examined x hx horigin hlt (fun h => absurd h (by simp [hrun])) hout
  · intro hss t ht hsteps htrun c hpos hle hnext htail hin
    have hend : LostReach env s ∧ LostSweptEnd env c s := by
      refine Runs.preserves (P := fun a => LostReach env a ∧ LostSweptEnd env c a)
        (fun a b hab ha => ⟨ha.1.tail hab, ?_⟩) hsteps ⟨ht, ⟨hle, hnext⟩, fun hbehind => ?_⟩
      · exact hab.sweptEnd hdeep hroom hreads hsectors ha.1 hss htail hin ha.2
      · exact absurd (hbehind htrun) (not_lt.mpr hpos)
    exact hend.2.examined fun h => absurd h (by simp [hrun])

/-- On a disk of eight sectors: the second sector, and the end of the disk. -/
theorem lostF2fsDisk_sweeps : ∃ s, LostCalls lostF2fsDisk s ∧ s.done = true
    ∧ LostExamined lostF2fsDisk s.trace 4096 ∧ LostEndExamined lostF2fsDisk s.trace 32768 := by
  have heval : (roverLostScanStep lostF2fsDisk 40 (fun _ => false)
      (roverLostScanBegin lostF2fsDisk) 0).map (·.2.done) = some true := by
    decide
  obtain ⟨⟨ret, s⟩, hcall, hdone⟩ := Option.map_eq_some_iff.mp heval
  have hcalls : LostCalls lostF2fsDisk s := .step .begin hcall
  obtain ⟨hsectors, hends⟩ := lostScan_sweeps rfl (by decide) (fun _ _ => rfl)
    (fun r hr => absurd hr List.not_mem_nil) hcalls hdone
  refine ⟨s, hcalls, hdone, hsectors 4096 (by decide) (by decide) (by decide) rfl, ?_⟩
  exact hends (by decide) _ .refl (roverLostScanStep_steps hcall).1 (by decide) 32768
    (by decide) (by decide) (by decide) (by decide)
    fun ⟨r, hr, _⟩ => absurd hr List.not_mem_nil

/-- The sector that an event of the deep search examines. -/
def LostEvent.sector? : LostEvent → Option ℕ
  | .sector x _ => some x
  | _ => none

/-- The same disk, with a filesystem that GRUB reads on the device itself. -/
def lostReadableDisk : LostSearch := { lostF2fsDisk with baseReadable := true }

/-- The search begins behind the first sector of such a device. -/
theorem lostReadableDisk_begins_later :
    ¬ ∀ env : LostSearch, env.deep = true → (∀ offset len, env.readOk offset len = true) →
      ∀ s, LostCalls env s → s.done = true →
      (∀ x, x % env.sectorSize = 0 → x < env.size → lostRangeAt env x true = none →
        LostExamined env s.trace x)
      ∧ ∀ c, c ≤ env.size → lostNext env (roverLostScanBegin env).hints c = c →
        ¬ LostInside env c → LostEndExamined env s.trace c := by
  intro hclaim
  have heval : (roverLostScanStep lostReadableDisk 40 (fun _ => false)
      (roverLostScanBegin lostReadableDisk) 0).map
        (fun r => (r.2.done, (r.2.trace.filterMap LostEvent.sector?).contains 0))
        = some (true, false) := by
    decide
  obtain ⟨⟨ret, s⟩, hcall, hstate⟩ := Option.map_eq_some_iff.mp heval
  obtain ⟨hdone, hmiss⟩ := Prod.mk.inj hstate
  obtain ⟨buf, hmem, -⟩ := (hclaim _ rfl (fun _ _ => rfl) s (.step .begin hcall) hdone).1 0
    (by decide) (by decide) rfl
  have hexamined : 0 ∈ s.trace.filterMap LostEvent.sector? :=
    List.mem_filterMap.mpr ⟨_, hmem, rfl⟩
  rw [← List.contains_iff_mem, hmiss] at hexamined
  cases hexamined

end FsRover
