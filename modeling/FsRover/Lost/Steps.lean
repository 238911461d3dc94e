import FsRover.Lost.Acts

/-!
# The rounds of a search

The loop of `rover_lost_scan_step` as a transition relation: one constructor for each thing that
a round can do, with the guards under which it does. The scans a caller can see are reached by
these steps from the one `rover_lost_scan_begin` returns, whatever the budgets and the callback
are.

## Main definitions

* `FsRover.LostRound` : one round; `FsRover.LostStep` : one round, or the clamping of the position
  at the end of a call.
* `FsRover.LostReach` : the scans that steps reach.
* `FsRover.LostCalls` : the scans between calls of `rover_lost_scan_step`.

## Main results

* `FsRover.lostRound_round` : every round of the loop is one of these.
* `FsRover.LostCalls.reach` : every scan between calls is reached by steps.
* `FsRover.roverLostScanBegin_acts`, `FsRover.lostDeepChunk_acts` : the first scan and a chunk of
  the deep search as sequences of changes.
-/

namespace FsRover

variable (env : LostSearch)

/-! ### What the deep search changes -/

/-- One change while a chunk is examined. -/
inductive LostChunkAct (hits : LostHit → Prop) (entries : ℕ → ℕ → Prop) (s : LostScan) :
    LostScan → Prop
  | act {s' : LostScan} (h : LostAct env (fun _ => False) entries s s') :
      LostChunkAct hits entries s s'
  | sector (x : ℕ) (buf : Buf) :
      LostChunkAct hits entries s { s with trace := .sector x buf :: s.trace }
  | tail (x : ℕ) (buf : Buf) :
      LostChunkAct hits entries s { s with trace := .tail x buf :: s.trace }
  | pend (hs : List LostHit) (hhits : ∀ h ∈ hs, hits h) :
      LostChunkAct hits entries s { s with pending := hs.foldl lostPend s.pending }

/-- A sequence of such changes. -/
abbrev LostChunkActs (hits : LostHit → Prop) (entries : ℕ → ℕ → Prop) :
    LostScan → LostScan → Prop :=
  Relation.ReflTransGen (LostChunkAct env hits entries)

/-- A hit that the sector at `x` gives: through the bytes before it, or through what starts there
unless a readable partition does. -/
def LostSectorHit (x : ℕ) (inRange : Bool) (h : LostHit) : Prop :=
  (∃ before, h ∈ lostExamineEnd env x before)
    ∨ inRange = false ∧ ∃ buf len positional,
        lostDetect env x buf len positional = some (.hit h)

/-- A hit that a chunk from `base` gives. -/
def LostChunkHit (base : ℕ) (inRange : Bool) (h : LostHit) : Prop :=
  ∃ k, LostSectorHit env (base + k * env.sectorSize) inRange h

/-- A table entry that an extended boot record somewhere on the device gives. -/
def LostEbrEntry (start size : ℕ) : Prop :=
  ∃ c buf len positional, LostEbrAt env (lostDetect env c buf len positional) c start size

variable {env} {hits : LostHit → Prop} {entries : ℕ → ℕ → Prop}

theorem LostActs.chunk {s s' : LostScan} (h : LostActs env (fun _ => False) entries s s') :
    LostChunkActs env hits entries s s' :=
  h.lift id fun _ _ => .act

theorem lostDeepSector_acts (deep : Buf) (base x : ℕ) (inRange positional : Bool) (s : LostScan)
    (hhits : ∀ h, LostSectorHit env x inRange h → hits h) :
    LostChunkActs env hits (LostEbrEntry env) s
      (lostDeepSector env deep base x inRange positional s) := by
  set ends := if (positional && lostTailLen env ≤ x) = true
    then lostExamineEnd env x (deep.from (LOST_TAIL + (x - base) - lostTailLen env)) else []
    with hends
  have hendsOk : ∀ h ∈ ends, hits h := by
    intro h hh
    by_cases hpos : (positional && lostTailLen env ≤ x) = true
    · rw [hends, if_pos hpos] at hh
      exact hhits h (Or.inl ⟨_, hh⟩)
    · rw [hends, if_neg hpos] at hh
      exact absurd hh List.not_mem_nil
  set noted : LostScan := if (positional && lostTailLen env ≤ x) = true
    then { s with trace := .tail x (deep.from (LOST_TAIL + (x - base) - lostTailLen env)) ::
      s.trace } else s with hnoted
  have hnote : LostChunkActs env hits (LostEbrEntry env) s noted := by
    rw [hnoted]
    split_ifs
    · exact .single (.tail x _)
    · exact .refl
  unfold lostDeepSector
  dsimp only
  rw [← hends, ← hnoted]
  by_cases hexam : (!inRange && x < env.size) = true
  · rw [if_pos hexam]
    have hin : inRange = false := by simp_all
    have hact := @lostExamine_acts _ (fun _ => False) (LostEbrEntry env)
      { noted with trace := .sector x (deep.from (LOST_TAIL + (x - base))) :: noted.trace } x
      (deep.from (LOST_TAIL + (x - base))) (min (env.size - x) LOST_WINDOW) positional
      fun start size h => ⟨_, _, _, _, h⟩
    refine hnote.trans (.head (.sector x _) ((LostActs.chunk hact).tail (.pend _ ?_)))
    intro h hh
    rcases List.mem_append.mp hh with hh | hh
    · exact hendsOk h hh
    · rw [lostExamine_hits] at hh
      refine hhits h (Or.inr ⟨hin, deep.from (LOST_TAIL + (x - base)),
        min (env.size - x) LOST_WINDOW, positional, ?_⟩)
      revert hh
      rcases lostDetect env x (deep.from (LOST_TAIL + (x - base)))
        (min (env.size - x) LOST_WINDOW) positional with _ | ⟨g⟩ | ⟨first, count⟩
      · exact fun hh => absurd hh List.not_mem_nil
      · intro hh
        rw [List.mem_singleton.mp hh]
      · exact fun hh => absurd hh List.not_mem_nil
  · rw [if_neg hexam, List.append_nil]
    exact hnote.tail (.pend _ hendsOk)

theorem lostDeepSectors_acts (deep : Buf) (base : ℕ) (inRange : Bool) (x candidate : ℕ)
    (s : LostScan) (n : ℕ)
    (hhits : ∀ k h, LostSectorHit env (x + k * env.sectorSize) inRange h → hits h) :
    LostChunkActs env hits (LostEbrEntry env) s
      (lostDeepSectors env deep base inRange x candidate s n) := by
  induction n generalizing x candidate s with
  | zero => exact .refl
  | succ n ih =>
    unfold lostDeepSectors
    dsimp only
    refine (lostDeepSector_acts deep base x inRange _ s fun h hh => hhits 0 h ?_).trans
      (ih _ _ _ fun k h hh => hhits (k + 1) h ?_)
    · simpa only [Nat.zero_mul, Nat.add_zero] using hh
    · rwa [Nat.add_mul, Nat.one_mul, Nat.add_comm (k * _), ← Nat.add_assoc]

variable (env) in
/-- Where the deep search goes on after the chunk from `base` on. -/
def lostDeepNext (base : ℕ) : ℕ :=
  match lostRangeAt env base true with
  | some r => r.endAt
  | none => lostDeepEnd env base false

variable (env) in
/-- A readable partition starts at `base`, so the chunk there is not examined. -/
def lostDeepInRange (base : ℕ) : Bool := (lostRangeAt env base true).isSome

theorem lostDeepEnd_le (base : ℕ) (inRange : Bool) :
    lostDeepEnd env base inRange ≤ env.size + 1 := by
  unfold lostDeepEnd
  dsimp only
  generalize List.foldl _ _ _ = endAt
  split_ifs <;> omega

theorem lostDeepSector_lt {base k : ℕ} {inRange : Bool}
    (hk : k < (lostDeepEnd env base inRange - base + env.sectorSize - 1) / env.sectorSize) :
    base + k * env.sectorSize < lostDeepEnd env base inRange := by
  have hss := env.sectorSize_pos
  have hlast := (Nat.le_div_iff_mul_le hss).mp (Nat.succ_le_of_lt hk)
  rw [Nat.succ_mul] at hlast
  omega

/-- A chunk changes pending hits, tables and hints, then moves on. -/
theorem lostDeepChunk_acts (s : LostScan) :
    ∃ m, LostChunkActs env (LostChunkHit env s.pos (lostDeepInRange env s.pos))
        (LostEbrEntry env) s m
      ∧ lostDeepChunk env s = { m with pos := lostDeepNext env s.pos } := by
  have hrun : ∀ inRange, LostChunkActs env (LostChunkHit env s.pos inRange) (LostEbrEntry env) s
      (lostDeepChunk.lostDeepRun env s s.pos inRange) := fun inRange =>
    lostDeepSectors_acts _ _ _ _ _ _ _ fun k h hh => ⟨k, hh⟩
  unfold lostDeepChunk lostDeepNext lostDeepInRange
  dsimp only
  cases lostRangeAt env s.pos true with
  | none => exact ⟨_, hrun false, rfl⟩
  | some r =>
    dsimp only
    split_ifs
    · exact ⟨s, .refl, rfl⟩
    · exact ⟨_, hrun true, rfl⟩

/-! ### The scan a search begins with -/

/-- An entry of a GPT table has a size that fits. -/
def LostGptEntry (_start size : ℕ) : Prop := size < 2 ^ 64

theorem lostGptEntries_acts (buf : Buf) (entrySize lbaSize : ℕ) (s : LostScan) (i n : ℕ) :
    LostActs env hits LostGptEntry s (lostGptEntries env buf entrySize lbaSize s i n) := by
  induction n generalizing s i with
  | zero => exact .refl
  | succ n ih =>
    unfold lostGptEntries
    dsimp only
    split_ifs with hskip
    · exact ih s (i + 1)
    · refine (lostAddTable_acts s _ _ ?_).trans (ih _ (i + 1))
      obtain ⟨-, hfirst, hlast, hmax⟩ : _ ∧ _ ∧ _ ∧ _ := by
        simpa only [not_or] using hskip
      generalize lostLe64 (buf.from (i * entrySize)) 32 = first at hfirst hlast
      generalize lostLe64 (buf.from (i * entrySize)) 40 = last at hlast hmax
      calc (last - first + 1) * lbaSize ≤ (2 ^ 64 - 1) / lbaSize * lbaSize :=
            Nat.mul_le_mul_right _ (by omega)
        _ ≤ 2 ^ 64 - 1 := Nat.div_mul_le_self _ _
        _ < 2 ^ 64 := by decide

theorem lostGpt_acts (s : LostScan) (lbaSize lba : ℕ) :
    LostActs env hits LostGptEntry s (lostGpt env s lbaSize lba) := by
  unfold lostGpt
  dsimp only
  split_ifs with hout
  · exact .refl
  cases lostRead env (u64 (lba * lbaSize)) lbaSize with
  | none => exact .refl
  | some raw =>
    dsimp only
    split_ifs
    any_goals exact .refl
    cases lostRead env (u64 (lostLe64 (lostGptHeader raw) 72 * lbaSize))
        (lostLe32 (lostGptHeader raw) 80 * lostLe32 (lostGptHeader raw) 84) with
    | none => exact .refl
    | some buf =>
      dsimp only
      split_ifs
      · exact .refl
      · exact lostGptEntries_acts _ _ _ _ _ _

theorem foldl_acts {α : Type*} {f : LostScan → α → LostScan}
    (hf : ∀ s a, LostActs env hits entries s (f s a)) (s : LostScan) (as : List α) :
    LostActs env hits entries s (as.foldl f s) := by
  induction as generalizing s with
  | nil => exact .refl
  | cons a as ih => exact (hf s a).trans (ih _)

theorem lostRangeHints_acts (s : LostScan) (r : LostRange) :
    LostActs env hits entries s (lostRangeHints env s r) := by
  unfold lostRangeHints
  split_ifs
  · exact lostAddEndHints_acts _ _
  · exact (lostAddHint_acts _ _).trans (lostAddEndHints_acts _ _)

/-- The first scan: hints of the partitions, GPT entries, fixed hints and the device end. -/
theorem roverLostScanBegin_acts :
    ∃ m, LostActs env (fun _ => False) LostGptEntry .empty m
      ∧ roverLostScanBegin env = { m with pos := env.origin } := by
  refine ⟨_, ?_, rfl⟩
  refine (foldl_acts (f := lostRangeHints env) (fun s r => lostRangeHints_acts s r)
    _ env.ranges).trans ?_
  refine (foldl_acts (f := lostGptBoth env)
    (fun s b => (lostGpt_acts s b 1).trans (lostGpt_acts _ b _)) _ (lostGptBlockSizes env)).trans ?_
  refine (foldl_acts (f := fun s h => lostAddHint env s (h * 512))
    (fun s h => lostAddHint_acts s _) _ lostFixedHints).trans ?_
  exact lostAddHint_acts _ _

/-! ### Rounds -/

/-- After `lost_report` a hit was without interest, or its start, size and type are known. -/
def LostSettled (env : LostSearch) (s : LostScan) (hit : LostHit) : Prop :=
  lostIgnores env hit = true ∨ ⟨hit.start, hit.size, hit.type⟩ ∈ s.found

variable (env) in
/-- One round of the loop in `rover_lost_scan_step`. -/
inductive LostRound (s : LostScan) : LostScan → Prop
  /-- The quick search has no candidate left in this pass and no range is queued. -/
  | finish (hdone : s.done = false) (hrun : s.finishing = false) (hquick : env.deep = false)
      (hover : env.size < lostNext env s.hints s.pos ∨ s.limit ≤ lostNext env s.hints s.pos)
      (hnone : ∀ k ∈ s.skips, k.state ≠ .queued) :
      LostRound s { s with finishing := true }
  /-- The first queued range is searched again. -/
  | pass (i : ℕ) (k : LostSkip) (hdone : s.done = false) (hrun : s.finishing = false)
      (hquick : env.deep = false)
      (hover : env.size < lostNext env s.hints s.pos ∨ s.limit ≤ lostNext env s.hints s.pos)
      (hget : s.skips[i]? = some k) (hqueued : k.state = .queued) :
      LostRound s { s with
        skips := s.skips.set i { k with state := .done }
        pos := k.fromOff
        limit := k.toOff
        rescanning := true }
  /-- A candidate that is not on a sector. -/
  | misaligned (c : ℕ) (hdone : s.done = false) (hrun : s.finishing = false)
      (hquick : env.deep = false) (hc : c = lostNext env s.hints s.pos) (hle : c ≤ env.size)
      (hlt : c < s.limit) (hmod : c % env.sectorSize ≠ 0) :
      LostRound s { s with pos := c + 1 }
  /-- A candidate inside a readable partition. -/
  | skipRange (c : ℕ) (r : LostRange) (hdone : s.done = false) (hrun : s.finishing = false)
      (hquick : env.deep = false) (hc : c = lostNext env s.hints s.pos) (hle : c ≤ env.size)
      (hlt : c < s.limit) (hmod : c % env.sectorSize = 0)
      (hr : lostRangeAt env c true = some r) (hne : r.start ≠ c) :
      LostRound s { s with pos := r.endAt }
  /-- A candidate is examined and its hits are reported. -/
  | visit (c : ℕ) (endOnly : Bool) (s' : LostScan) (hdone : s.done = false)
      (hrun : s.finishing = false) (hquick : env.deep = false)
      (hc : c = lostNext env s.hints s.pos) (hle : c ≤ env.size) (hlt : c < s.limit)
      (hmod : c % env.sectorSize = 0) (hrange : ∀ r, lostRangeAt env c true = some r → r.start = c)
      (hend : endOnly = (lostRangeAt env c true).isSome)
      (hacts : LostActs env (· ∈ lostQuickHits env c endOnly)
        (LostEbrAt env (lostQuickVerdict env c) c)
        { s with pos := c + 1, trace := .candidate c :: s.trace } s')
      (hsettled : ∀ h ∈ lostQuickHits env c endOnly, LostSettled env s' h) :
      LostRound s s'
  /-- The deep search has passed the device end. -/
  | settle (hdone : s.done = false) (hrun : s.finishing = false) (hdeep : env.deep = true)
      (hpos : env.size < s.pos) :
      LostRound s
        { s with pending := lostSettle s.pending, pos := env.size, finishing := true }
  /-- A chunk of the deep search. -/
  | chunk (hdone : s.done = false) (hrun : s.finishing = false) (hdeep : env.deep = true)
      (hpos : s.pos ≤ env.size) :
      LostRound s (lostDeepChunk env s)
  /-- A hit of the deep search is reported. -/
  | pending (hit : LostHit) (s' : LostScan) (hdone : s.done = false) (hrun : s.finishing = true)
      (hget : s.pending[s.nextPending]? = some hit)
      (hacts : LostActs env (· = hit) (fun _ _ => False)
        { s with nextPending := s.nextPending + 1 } s')
      (hsettled : LostSettled env s' hit) :
      LostRound s s'
  /-- A table entry that a result claimed. -/
  | claimed (t : LostTable) (hdone : s.done = false) (hrun : s.finishing = true)
      (hpending : s.pending.length ≤ s.nextPending) (hget : s.tables[s.nextTable]? = some t)
      (hclaimed : t.claimed = true) :
      LostRound s { s with nextTable := s.nextTable + 1 }
  /-- A table entry that no result claimed is reported. -/
  | entry (t : LostTable) (s' : LostScan) (hdone : s.done = false) (hrun : s.finishing = true)
      (hpending : s.pending.length ≤ s.nextPending) (hget : s.tables[s.nextTable]? = some t)
      (hclaimed : t.claimed = false)
      (hacts : LostActs env (· = lostSetHit t.start t.size .partition false) (fun _ _ => False)
        { s with nextTable := s.nextTable + 1 } s')
      (hsettled : LostSettled env s' (lostSetHit t.start t.size .partition false)) :
      LostRound s s'
  /-- Everything was reported. -/
  | ends (hdone : s.done = false) (hrun : s.finishing = true)
      (hpending : s.pending.length ≤ s.nextPending) (htables : s.tables.length ≤ s.nextTable) :
      LostRound s { s with done := true }

variable (env) in
/-- One round, or the end of a call. -/
inductive LostStep (s : LostScan) : LostScan → Prop
  | round {s' : LostScan} (h : LostRound env s s') : LostStep s s'
  | clamp (h : env.size < s.pos ∨ s.done = true) : LostStep s { s with pos := env.size }

/-! ### The functions make these steps -/

theorem lostKnown_iff {s : LostScan} {hit : LostHit} :
    lostKnown s hit = true ↔ ⟨hit.start, hit.size, hit.type⟩ ∈ s.found := by
  unfold lostKnown
  simp only [List.any_eq_true, Bool.and_eq_true, beq_iff_eq]
  constructor
  · rintro ⟨⟨start, size, type⟩, hf, ⟨rfl, rfl⟩, rfl⟩
    exact hf
  · exact fun h => ⟨_, h, ⟨rfl, rfl⟩, rfl⟩

theorem LostSettled.mono {s s' : LostScan} {hit : LostHit} (h : LostSettled env s hit)
    (hframe : s.Frame s') : LostSettled env s' hit :=
  h.imp_right fun hmem => hframe.found_prefix.subset hmem

theorem lostReport_settled (cb : ℕ → Bool) (s : LostScan) (hit : LostHit) :
    LostSettled env (lostReport env cb s hit).1 hit := by
  unfold lostReport
  dsimp only
  by_cases hig : lostIgnores env hit = true
  · exact Or.inl hig
  rw [if_neg hig]
  by_cases hknown : lostKnown s (lostEffectiveHit env hit) = true
  · have hmem := lostKnown_iff.mp hknown
    simp only [lostEffectiveHit_start, lostEffectiveHit_size, lostEffectiveHit_type] at hmem
    rw [if_pos hknown]
    refine Or.inr ?_
    split_ifs
    · exact (@lostJump_acts _ (fun _ => False) (fun _ _ => False)
        _ _).frame.found_prefix.subset hmem
    · exact hmem
  · rw [if_neg hknown]
    refine Or.inr ?_
    have hmem : (⟨hit.start, hit.size, hit.type⟩ : LostFound) ∈
        (lostAccept env s (lostEffectiveHit env hit) (lostEffectiveHit env hit).endAt).found := by
      simp [lostAccept, lostRemember]
    rw [lostRecord_eq]
    split_ifs
    · exact hmem
    · exact (@lostStepOver_acts _ (fun _ => False) (fun _ _ => False)
        _ _).frame.found_prefix.subset hmem

theorem lostReportAll_settled (cb : ℕ → Bool) (s : LostScan) (hs : List LostHit) :
    ∀ h ∈ hs, LostSettled env (lostReportAll env cb s hs).1 h := by
  induction hs generalizing s with
  | nil => exact fun h hh => absurd hh List.not_mem_nil
  | cons a hs ih =>
    intro h hh
    rcases List.mem_cons.mp hh with rfl | hh
    · have hacts := @lostReportAll_acts env (fun _ => True) (fun _ _ => True) cb (lostReport env cb
        s h).1 hs fun _ _ => trivial
      exact (lostReport_settled cb s h).mono hacts.frame
    · exact ih _ h hh

theorem lostNextPass_cases (s : LostScan) :
    (lostNextPass s = none ∧ ∀ k ∈ s.skips, k.state ≠ .queued)
      ∨ ∃ i k, s.skips[i]? = some k ∧ k.state = .queued
        ∧ lostNextPass s = some { s with
          skips := s.skips.set i { k with state := .done }
          pos := k.fromOff
          limit := k.toOff
          rescanning := true } := by
  unfold lostNextPass
  cases hi : s.skips.findIdx? (·.state = .queued) with
  | none =>
    refine Or.inl ⟨rfl, fun k hk => ?_⟩
    simpa using List.findIdx?_eq_none_iff.mp hi k hk
  | some i =>
    obtain ⟨hlt, hstate, hbefore⟩ := List.findIdx?_eq_some_iff_getElem.mp hi
    have hfind : s.skips.find? (·.state = .queued) = some s.skips[i] := by
      rw [List.find?_eq_some_iff_getElem]
      exact ⟨hstate, i, hlt, rfl, fun j hj => by simpa using hbefore j hj⟩
    refine Or.inr ⟨i, s.skips[i], List.getElem?_eq_getElem hlt, by simpa using hstate, ?_⟩
    rw [hfind]

theorem lostQuickVisit_round (cb : ℕ → Bool) (s : LostScan) (c : ℕ) (hdone : s.done = false)
    (hrun : s.finishing = false) (hquick : env.deep = false)
    (hc : c = lostNext env s.hints s.pos) (hle : c ≤ env.size) (hlt : c < s.limit) :
    LostRound env s (lostQuickVisit env cb { s with pos := c + 1 } c).1 := by
  have hvisit : c % env.sectorSize = 0 → ∀ endOnly,
      (∀ r, lostRangeAt env c true = some r → r.start = c) →
      endOnly = (lostRangeAt env c true).isSome →
      LostRound env s (lostQuickVisit.visit env cb { s with pos := c + 1 } c endOnly).1 := by
    intro hmod endOnly hrange hend
    have hfst := @lostQuickCandidate_acts env (· ∈ lostQuickHits env c endOnly) _
      { s with pos := c + 1 } c endOnly fun _ _ h => h
    unfold lostQuickVisit.visit
    dsimp only
    refine .visit c endOnly _ hdone hrun hquick hc hle hlt hmod hrange hend (hfst.trans
      (lostReportAll_acts cb _ _ fun h hh => ?_)) fun h hh => lostReportAll_settled cb _ _ h ?_
    · rwa [lostQuickCandidate_hits] at hh
    · rwa [lostQuickCandidate_hits]
  unfold lostQuickVisit
  split_ifs with hmod
  · exact .misaligned c hdone hrun hquick hc hle hlt hmod
  · have hmod := not_not.mp hmod
    cases hr : lostRangeAt env c true with
    | none =>
      refine hvisit hmod false (fun r hr' => ?_) (by rw [hr]; rfl)
      rw [hr] at hr'
      cases hr'
    | some r =>
      dsimp only
      split_ifs with hne
      · exact .skipRange c r hdone hrun hquick hc hle hlt hmod hr hne
      · refine hvisit hmod true (fun r' hr' => ?_) (by rw [hr]; rfl)
        obtain rfl := Option.some.inj (hr.symm.trans hr')
        exact not_not.mp hne

theorem lostFinishRound_round (cb : ℕ → Bool) (s : LostScan) (hdone : s.done = false)
    (hrun : s.finishing = true) : LostRound env s (lostFinishRound env cb s).1 := by
  unfold lostFinishRound
  cases hp : s.pending[s.nextPending]? with
  | some hit =>
    exact .pending hit _ hdone hrun hp (lostReport_acts cb _ hit rfl) (lostReport_settled cb _ hit)
  | none =>
    have hpending := List.getElem?_eq_none_iff.mp hp
    dsimp only
    cases ht : s.tables[s.nextTable]? with
    | none => exact .ends hdone hrun hpending (List.getElem?_eq_none_iff.mp ht)
    | some t =>
      dsimp only
      by_cases hclaimed : t.claimed = true
      · rw [if_pos hclaimed]
        exact .claimed t hdone hrun hpending ht hclaimed
      · rw [if_neg hclaimed]
        exact .entry t _ hdone hrun hpending ht (Bool.not_eq_true _ ▸ hclaimed)
          (lostReport_acts cb _ _ rfl) (lostReport_settled cb _ _)

/-- Every round of the loop is one of these. -/
theorem lostRound_round (cb : ℕ → Bool) (s : LostScan) (hdone : s.done = false) :
    LostRound env s (lostRound env cb s).1 := by
  unfold lostRound
  split_ifs with hrun hdeep
  · exact lostFinishRound_round cb s hdone hrun
  · have hrun := Bool.not_eq_true _ ▸ hrun
    unfold lostDeepRound
    split_ifs with hpos
    · exact .settle hdone hrun hdeep hpos
    · exact .chunk hdone hrun hdeep (not_lt.mp hpos)
  · have hrun := Bool.not_eq_true _ ▸ hrun
    have hquick := Bool.not_eq_true _ ▸ hdeep
    unfold lostQuickRound
    dsimp only
    split_ifs with hover
    · rcases lostNextPass_cases s with ⟨hp, hnone⟩ | ⟨i, k, hget, hqueued, hp⟩
      · rw [hp]
        exact .finish hdone hrun hquick hover hnone
      · rw [hp]
        exact .pass i k hdone hrun hquick hover hget hqueued
    · obtain ⟨hle, hlt⟩ := not_or.mp hover
      exact lostQuickVisit_round cb s _ hdone hrun hquick rfl (not_lt.mp hle) (not_le.mp hlt)

/-! ### What only grows -/

/-- What no step takes back. -/
structure LostScan.Grows (s s' : LostScan) : Prop where
  hints : s.hints ⊆ s'.hints
  found : s.found <+: s'.found
  trace : s.trace <:+ s'.trace

theorem LostScan.Grows.refl (s : LostScan) : s.Grows s :=
  ⟨List.Subset.refl _, List.prefix_rfl, List.suffix_rfl⟩

theorem LostScan.Grows.trans {a b c : LostScan} (hab : a.Grows b) (hbc : b.Grows c) : a.Grows c :=
  ⟨List.Subset.trans hab.1 hbc.1, hab.2.trans hbc.2, hab.3.trans hbc.3⟩

theorem LostScan.Frame.grows {s s' : LostScan} (h : s.Frame s') : s.Grows s' :=
  ⟨h.hints_subset, h.found_prefix, h.trace_suffix⟩

theorem LostChunkActs.grows {s s' : LostScan} (h : LostChunkActs env hits entries s s') :
    s.Grows s' := by
  refine Runs.relates (R := LostScan.Grows) .refl (fun _ _ _ => .trans) (fun a b hab => ?_) h
  cases hab with
  | act h => exact h.frame.grows
  | sector => exact ⟨List.Subset.refl _, List.prefix_rfl, List.suffix_cons _ _⟩
  | tail => exact ⟨List.Subset.refl _, List.prefix_rfl, List.suffix_cons _ _⟩
  | pend => exact ⟨List.Subset.refl _, List.prefix_rfl, List.suffix_rfl⟩

/-- What a chunk leaves as it is. -/
structure LostScan.ChunkFrame (s s' : LostScan) : Prop where
  limit_eq : s'.limit = s.limit
  done_eq : s'.done = s.done
  finishing_eq : s'.finishing = s.finishing
  nextTable_eq : s'.nextTable = s.nextTable
  nextPending_eq : s'.nextPending = s.nextPending
  found_eq : s'.found = s.found

theorem LostScan.ChunkFrame.trans {a b c : LostScan} (hab : a.ChunkFrame b)
    (hbc : b.ChunkFrame c) : a.ChunkFrame c :=
  ⟨hbc.1.trans hab.1, hbc.2.trans hab.2, hbc.3.trans hab.3, hbc.4.trans hab.4, hbc.5.trans hab.5,
    hbc.6.trans hab.6⟩

theorem LostChunkActs.frame {s s' : LostScan} (h : LostChunkActs env hits entries s s') :
    s.ChunkFrame s' := by
  refine Runs.relates (R := LostScan.ChunkFrame) (fun _ => ⟨rfl, rfl, rfl, rfl, rfl, rfl⟩)
    (fun _ _ _ => .trans) (fun a b hab => ?_) h
  cases hab with
  | act h =>
    have hframe := h.frame
    refine ⟨hframe.limit_eq, hframe.done_eq, hframe.finishing_eq, hframe.nextTable_eq,
      hframe.nextPending_eq, ?_⟩
    cases h with
    | record _ hhit => exact absurd hhit not_false
    | _ => rfl
  | _ => exact ⟨rfl, rfl, rfl, rfl, rfl, rfl⟩

theorem lostDeepChunk_frame (s : LostScan) : s.ChunkFrame (lostDeepChunk env s) := by
  obtain ⟨m, hacts, hm⟩ := @lostDeepChunk_acts env s
  have hframe := LostChunkActs.frame hacts
  rw [hm]
  exact ⟨hframe.1, hframe.2, hframe.3, hframe.4, hframe.5, hframe.6⟩

theorem lostDeepChunk_pos (s : LostScan) :
    (lostDeepChunk env s).pos = lostDeepNext env s.pos := by
  obtain ⟨m, -, hm⟩ := @lostDeepChunk_acts env s
  rw [hm]

theorem lostDeepChunk_grows (s : LostScan) : s.Grows (lostDeepChunk env s) := by
  obtain ⟨m, hacts, hm⟩ := @lostDeepChunk_acts env s
  have hgrows := LostChunkActs.grows hacts
  rw [hm]
  exact ⟨hgrows.hints, hgrows.found, hgrows.trace⟩

theorem LostRound.grows {s s' : LostScan} (h : LostRound env s s') : s.Grows s' := by
  cases h with
  | visit c _ _ _ _ _ _ _ _ _ _ _ hacts =>
    have hgrows := (LostActs.frame hacts).grows
    exact ⟨hgrows.hints, hgrows.found, (List.suffix_cons _ _).trans hgrows.trace⟩
  | chunk => exact lostDeepChunk_grows s
  | pending _ _ _ _ _ hacts =>
    have hgrows := (LostActs.frame hacts).grows
    exact ⟨hgrows.hints, hgrows.found, hgrows.trace⟩
  | entry _ _ _ _ _ _ _ hacts =>
    have hgrows := (LostActs.frame hacts).grows
    exact ⟨hgrows.hints, hgrows.found, hgrows.trace⟩
  | _ => exact ⟨List.Subset.refl _, List.prefix_rfl, List.suffix_rfl⟩

theorem LostStep.grows {s s' : LostScan} (h : LostStep env s s') : s.Grows s' := by
  cases h with
  | round h => exact h.grows
  | clamp => exact ⟨List.Subset.refl _, List.prefix_rfl, List.suffix_rfl⟩

/-! ### Reports and results -/

/-- A result as `lost_report` remembers it. -/
def RoverLostPart.found (p : RoverLostPart) : LostFound := ⟨p.offset, p.size, p.type⟩

theorem LostAct.results {P : List LostFound → List RoverLostPart → Prop}
    (hrecord : ∀ (a : LostScan) (hit : LostHit), P a.found a.reports →
      P (lostAccept env a hit hit.endAt).found (lostAccept env a hit hit.endAt).reports)
    {s s' : LostScan} (h : LostAct env hits entries s s') (hs : P s.found s.reports) :
    P s'.found s'.reports := by
  cases h with
  | record hit => exact hrecord s _ hs
  | _ => exact hs

theorem LostStep.results {P : List LostFound → List RoverLostPart → Prop}
    (hrecord : ∀ (a : LostScan) (hit : LostHit), P a.found a.reports →
      P (lostAccept env a hit hit.endAt).found (lostAccept env a hit hit.endAt).reports)
    {s s' : LostScan} (h : LostStep env s s') (hs : P s.found s.reports) :
    P s'.found s'.reports := by
  have hacts : ∀ {hits : LostHit → Prop} {entries : ℕ → ℕ → Prop} {a b : LostScan},
      LostActs env hits entries a b → P a.found a.reports → P b.found b.reports := fun h ha =>
    Runs.preserves (P := fun a : LostScan => P a.found a.reports)
      (fun _ _ hab => hab.results hrecord) h ha
  cases h with
  | clamp => exact hs
  | round h =>
    cases h with
    | visit _ _ _ _ _ _ _ _ _ _ _ _ h => exact hacts h hs
    | chunk =>
      obtain ⟨m, h, hm⟩ := @lostDeepChunk_acts env s
      have hchunk : P m.found m.reports := by
        refine Runs.preserves (P := fun a : LostScan => P a.found a.reports)
          (fun a b hab ha => ?_) h hs
        cases hab with
        | act h => exact h.results hrecord ha
        | _ => exact ha
      rwa [hm]
    | pending _ _ _ _ _ h => exact hacts h hs
    | entry _ _ _ _ _ _ _ h => exact hacts h hs
    | _ => exact hs

/-! ### Calls -/

variable (env) in
/-- The scans that steps reach from the first one. -/
def LostReach : LostScan → Prop :=
  Relation.ReflTransGen (LostStep env) (roverLostScanBegin env)

variable (env) in
/-- The scans between calls of `rover_lost_scan_step`, for any budgets and callbacks. -/
inductive LostCalls : LostScan → Prop
  | begin : LostCalls (roverLostScanBegin env)
  | step {s s' : LostScan} {fuel budget ret : ℕ} {cb : ℕ → Bool} (hs : LostCalls s)
      (hcall : roverLostScanStep env fuel cb s budget = some (ret, s')) : LostCalls s'

theorem lostStepBody_inl {cb : ℕ → Bool} {budget stop stop' : ℕ} {s s' : LostScan}
    (h : lostStepBody env cb budget (s, stop) = .inl (s', stop')) :
    s.done = false ∧ (s.finishing = true ∨ s.pos < stop) ∧ s' = (lostRound env cb s).1
      ∧ ((lostRound env cb s).2 = .next ∧ stop' = stop
        ∨ (lostRound env cb s).2 = .pass
          ∧ stop' = if budget ≠ 0 then u64 (s'.pos + budget) else stop) := by
  unfold lostStepBody at h
  dsimp only at h
  by_cases hdone : s.done = true
  · rw [if_pos hdone] at h
    cases h
  by_cases hstop : ¬ s.finishing = true ∧ stop ≤ s.pos
  · rw [if_neg hdone, if_pos hstop] at h
    cases h
  rw [if_neg hdone, if_neg hstop] at h
  refine ⟨Bool.not_eq_true _ ▸ hdone, by simpa [or_iff_not_imp_left] using hstop, ?_⟩
  rcases hround : lostRound env cb s with ⟨t, _ | _ | _⟩ <;> rw [hround] at h
  · cases h
    exact ⟨rfl, Or.inl ⟨rfl, rfl⟩⟩
  · obtain ⟨rfl, rfl⟩ := Prod.mk.inj (Sum.inl.inj h)
    exact ⟨rfl, Or.inr ⟨rfl, rfl⟩⟩
  · cases h

/-- How the loop ends: the search is over, the step reached its end, or the callback paused it. -/
theorem lostStepBody_inr {cb : ℕ → Bool} {budget stop : ℕ} {s s' : LostScan}
    (h : lostStepBody env cb budget (s, stop) = .inr s') :
    s.done = true ∧ s' = s
      ∨ s.done = false ∧ s.finishing = false ∧ stop ≤ s.pos ∧ s' = s
      ∨ s.done = false ∧ (s.finishing = true ∨ s.pos < stop) ∧ s' = (lostRound env cb s).1
        ∧ (lostRound env cb s).2 = .pause := by
  unfold lostStepBody at h
  dsimp only at h
  by_cases hdone : s.done = true
  · rw [if_pos hdone] at h
    exact Or.inl ⟨hdone, (Sum.inr.inj h).symm⟩
  by_cases hstop : ¬ s.finishing = true ∧ stop ≤ s.pos
  · rw [if_neg hdone, if_pos hstop] at h
    exact Or.inr (Or.inl ⟨Bool.not_eq_true _ ▸ hdone, Bool.not_eq_true _ ▸ hstop.1, hstop.2,
      (Sum.inr.inj h).symm⟩)
  rw [if_neg hdone, if_neg hstop] at h
  refine Or.inr (Or.inr ⟨Bool.not_eq_true _ ▸ hdone,
    by simpa [or_iff_not_imp_left] using hstop, ?_⟩)
  rcases hround : lostRound env cb s with ⟨t, _ | _ | _⟩ <;> rw [hround] at h
  · cases h
  · cases h
  · cases h
    exact ⟨rfl, rfl⟩

/-- A call makes steps, and its value says whether the search is over. -/
theorem roverLostScanStep_steps {s s' : LostScan} {fuel budget ret : ℕ} {cb : ℕ → Bool}
    (h : roverLostScanStep env fuel cb s budget = some (ret, s')) :
    Relation.ReflTransGen (LostStep env) s s' ∧ ret = if s'.done then 0 else 1 := by
  unfold roverLostScanStep at h
  obtain ⟨m, hm, hret⟩ := Option.map_eq_some_iff.mp h
  obtain ⟨rfl, rfl⟩ := Prod.mk.inj hret
  have hloop : Relation.ReflTransGen (LostStep env) s m := by
    refine FuelLoop.run_invariant (P := fun l => Relation.ReflTransGen (LostStep env) s l.1)
      (Q := fun m => Relation.ReflTransGen (LostStep env) s m) ?_ ?_ .refl hm
    · rintro ⟨a, stop⟩ ⟨b, stop'⟩ ha hb
      obtain ⟨hdone, -, rfl, -⟩ := lostStepBody_inl hb
      exact ha.tail (.round (lostRound_round cb a hdone))
    · rintro ⟨a, stop⟩ b ha hb
      obtain ⟨-, rfl⟩ | ⟨-, -, -, rfl⟩ | ⟨hdone, -, rfl, -⟩ := lostStepBody_inr hb
      · exact ha
      · exact ha
      · exact ha.tail (.round (lostRound_round cb a hdone))
  have hclamp : Relation.ReflTransGen (LostStep env) m (lostClamp env m)
      ∧ (lostClamp env m).done = m.done := by
    unfold lostClamp
    split_ifs with hend
    · exact ⟨.single (.clamp hend), rfl⟩
    · exact ⟨.refl, rfl⟩
  exact ⟨hloop.trans hclamp.1, by rw [hclamp.2]⟩

/-- Every scan between calls is reached by steps. -/
theorem LostCalls.reach {s : LostScan} (h : LostCalls env s) : LostReach env s := by
  induction h with
  | begin => exact .refl
  | step _ hcall ih => exact ih.trans (roverLostScanStep_steps hcall).1

theorem LostReach.preserves {P : LostScan → Prop} (hbegin : P (roverLostScanBegin env))
    (hstep : ∀ a b, LostStep env a b → P a → P b) {s : LostScan} (h : LostReach env s) : P s :=
  Runs.preserves hstep h hbegin

theorem LostReach.results {P : List LostFound → List RoverLostPart → Prop} (hempty : P [] [])
    (hrecord : ∀ (a : LostScan) (hit : LostHit), P a.found a.reports →
      P (lostAccept env a hit hit.endAt).found (lostAccept env a hit hit.endAt).reports)
    {s : LostScan} (h : LostReach env s) : P s.found s.reports := by
  refine h.preserves (P := fun s => P s.found s.reports) ?_ fun _ _ hstep => hstep.results hrecord
  obtain ⟨m, hacts, hm⟩ := @roverLostScanBegin_acts env
  have hbegin : P m.found m.reports :=
    Runs.preserves (P := fun a : LostScan => P a.found a.reports)
      (fun _ _ hab => LostAct.results hrecord hab) hacts hempty
  rwa [hm]

/-- The results remembered are those passed to the callback, in order. -/
theorem LostReach.reports {s : LostScan} (h : LostReach env s) :
    s.reports.map RoverLostPart.found = s.found := by
  refine h.results (P := fun found reports => reports.map RoverLostPart.found = found) rfl
    fun a hit ha => ?_
  unfold lostAccept lostRemember
  dsimp only
  rw [List.map_append, ha]
  rfl

theorem LostCalls.of_eval {fuel : ℕ} {cb : ℕ → Bool}
    (h : (roverLostScanStep env fuel cb (roverLostScanBegin env) 0).map (·.2.done) = some true) :
    ∃ s, LostCalls env s ∧ s.done = true := by
  obtain ⟨⟨ret, s⟩, hcall, hdone⟩ := Option.map_eq_some_iff.mp h
  exact ⟨s, .step .begin hcall, hdone⟩

end FsRover
