import FsRover.Lib.Runs
import FsRover.Lost.Scan

/-!
# The changes a search makes

Examining a candidate and reporting what it gives changes the scan in four ways only: a hint is
inserted, a table entry is remembered, a range is stepped over, a result is recorded. Everything
the functions of the search do between two rounds is a sequence of these, so an invariant is
checked against four cases.

## Main definitions

* `FsRover.LostAct` : one change; `hits` and `entries` say which hits and table entries may occur.
* `FsRover.LostActs` : a sequence of changes.
* `FsRover.lostQuickVerdict`, `FsRover.lostQuickHits` : what a candidate gives, which depends on
  the device alone.

## Main results

* `FsRover.lostReportAll_acts`, `FsRover.lostQuickCandidate_acts` : the functions make such
  sequences.
* `FsRover.LostActs.frame` : what no sequence changes.
-/

namespace FsRover

variable (env : LostSearch)

/-! ### What a candidate gives -/

/-- What lies at a candidate of the quick search. -/
def lostQuickVerdict (c : ℕ) : Option LostVerdict :=
  if env.size ≤ c then none
  else
    let len := min (env.size - c) LOST_WINDOW
    (lostRead env c len).bind fun raw => lostDetect env c (lostWindowBuf raw len) len true

/-- The hits through the bytes before a candidate. -/
def lostQuickEnds (c : ℕ) : List LostHit :=
  let tail := lostTailLen env
  if tail ≤ c then ((lostRead env (c - tail) tail).map (lostExamineEnd env c)).getD [] else []

/-- The hits of a verdict. -/
def LostVerdict.hits : LostVerdict → List LostHit
  | .hit h => [h]
  | .ebr .. => []

/-- The hits at a candidate. -/
def lostQuickHits (c : ℕ) (endOnly : Bool) : List LostHit :=
  lostQuickEnds env c
    ++ if endOnly then [] else ((lostQuickVerdict env c).map LostVerdict.hits).getD []

/-- The table entries that an extended boot record at `c` can give. -/
def LostEbrAt (v : Option LostVerdict) (c start size : ℕ) : Prop :=
  ∃ first count, v = some (.ebr first count) ∧ start = u64 (c + first * env.sectorSize)
    ∧ size = count * env.sectorSize

/-! ### Changes -/

/-- The scan that remembers a new result. -/
def lostRemember (s : LostScan) (hit : LostHit) : LostScan :=
  { s with
    tables := lostClaim s.tables hit.start
    found := s.found ++ [⟨hit.start, hit.size, hit.type⟩]
    skips := s.skips.map (·.conflict hit.start) }

/-- The scan after a new result was recorded and before it is stepped over. -/
def lostAccept (s : LostScan) (hit : LostHit) (endAt : ℕ) : LostScan :=
  { lostRemember s hit with reports := s.reports ++ [lostPart env s hit endAt] }

/-- The end of a hit as `lost_report` computes it. -/
def LostHit.endAt (hit : LostHit) : ℕ := u64 (hit.start + hit.size)

/-- One change of the scan. -/
inductive LostAct (hits : LostHit → Prop) (entries : ℕ → ℕ → Prop) (s : LostScan) :
    LostScan → Prop
  | hint (offset : ℕ) (hle : offset ≤ env.size) (hmod : offset % env.sectorSize = 0)
      (hnew : s.hints[SortedSearch.lowerBound s.hints offset]? ≠ some offset) :
      LostAct hits entries s
        { s with
          hints := SortedSearch.insertNew s.hints offset
          trace := .hint offset s.pos s.limit s.skips s.finishing :: s.trace }
  | table (start size : ℕ) (hentry : entries start size) (hsize : size ≠ 0)
      (hmod : start % env.sectorSize = 0) (hlt : start < env.size)
      (hnew : ∀ t ∈ s.tables, t.start = start → t.size ≠ size) :
      LostAct hits entries s
        { s with
          tables := s.tables ++ [⟨start, size, false⟩]
          trace := .table start size (s.found.map (·.start)) :: s.trace
          skips := s.skips.map (·.conflict start) }
  | jump (endAt : ℕ) (hpos : s.pos < endAt) (hle : endAt ≤ env.size)
      (hev : lostEvidence env s s.pos endAt = false) :
      LostAct hits entries s { s with skips := s.skips ++ [⟨s.pos, endAt, .passed⟩], pos := endAt }
  | record (hit : LostHit) (hhit : hits hit) (hig : lostIgnores env hit = false)
      (hnew : lostKnown s (lostEffectiveHit env hit) = false) :
      LostAct hits entries s
        (lostAccept env s (lostEffectiveHit env hit) (lostEffectiveHit env hit).endAt)

/-- A sequence of changes. -/
abbrev LostActs (hits : LostHit → Prop) (entries : ℕ → ℕ → Prop) : LostScan → LostScan → Prop :=
  Relation.ReflTransGen (LostAct env hits entries)

variable {env}

/-! ### What no sequence of changes touches -/

/-- What stays as it is, and what only grows, while candidates are examined and reported. -/
structure LostScan.Frame (s s' : LostScan) : Prop where
  limit_eq : s'.limit = s.limit
  done_eq : s'.done = s.done
  rescanning_eq : s'.rescanning = s.rescanning
  finishing_eq : s'.finishing = s.finishing
  nextTable_eq : s'.nextTable = s.nextTable
  pending_eq : s'.pending = s.pending
  nextPending_eq : s'.nextPending = s.nextPending
  pos_le : s.pos ≤ s'.pos
  hints_subset : s.hints ⊆ s'.hints
  tables_le : s.tables.length ≤ s'.tables.length
  found_prefix : s.found <+: s'.found
  trace_suffix : s.trace <:+ s'.trace

theorem LostScan.Frame.refl (s : LostScan) : s.Frame s :=
  ⟨rfl, rfl, rfl, rfl, rfl, rfl, rfl, le_rfl, List.Subset.refl _, le_rfl, List.prefix_rfl,
    List.suffix_rfl⟩

theorem LostScan.Frame.trans {a b c : LostScan} (hab : a.Frame b) (hbc : b.Frame c) : a.Frame c :=
  ⟨hbc.1.trans hab.1, hbc.2.trans hab.2, hbc.3.trans hab.3, hbc.4.trans hab.4, hbc.5.trans hab.5,
    hbc.6.trans hab.6, hbc.7.trans hab.7, hab.8.trans hbc.8, List.Subset.trans hab.9 hbc.9,
    hab.10.trans hbc.10, hab.11.trans hbc.11, hab.12.trans hbc.12⟩

theorem LostAct.frame {hits : LostHit → Prop} {entries : ℕ → ℕ → Prop} {s s' : LostScan}
    (h : LostAct env hits entries s s') : s.Frame s' := by
  cases h with
  | hint offset hle hmod hnew =>
    refine ⟨rfl, rfl, rfl, rfl, rfl, rfl, rfl, le_rfl, fun x hx => ?_, le_rfl, List.prefix_rfl,
      List.suffix_cons _ _⟩
    exact SortedSearch.mem_insertNew.mpr (Or.inr hx)
  | table start size hentry hsize hmod hlt hnew =>
    exact ⟨rfl, rfl, rfl, rfl, rfl, rfl, rfl, le_rfl, List.Subset.refl _, by simp,
      List.prefix_rfl, List.suffix_cons _ _⟩
  | jump endAt hpos hle hev =>
    exact ⟨rfl, rfl, rfl, rfl, rfl, rfl, rfl, hpos.le, List.Subset.refl _, le_rfl,
      List.prefix_rfl, List.suffix_rfl⟩
  | record hit hhit hig hnew =>
    exact ⟨rfl, rfl, rfl, rfl, rfl, rfl, rfl, le_rfl, List.Subset.refl _,
      by simp [lostAccept, lostRemember, lostClaim], List.prefix_append _ _, List.suffix_rfl⟩

theorem LostActs.frame {hits : LostHit → Prop} {entries : ℕ → ℕ → Prop} {s s' : LostScan}
    (h : LostActs env hits entries s s') : s.Frame s' :=
  Runs.relates (R := LostScan.Frame) .refl (fun _ _ _ => .trans) (fun _ _ => LostAct.frame) h

/-! ### The functions of the search as sequences of changes -/

variable {hits : LostHit → Prop} {entries : ℕ → ℕ → Prop}

theorem lostAddHint_acts (s : LostScan) (offset : ℕ) :
    LostActs env hits entries s (lostAddHint env s offset) := by
  unfold lostAddHint
  split_ifs with hout hnew
  · exact .refl
  · exact .refl
  · obtain ⟨hle, hmod⟩ := not_or.mp hout
    exact .single (.hint offset (not_lt.mp hle) (not_not.mp hmod) hnew)

theorem foldl_lostAddHint_acts (s : LostScan) (offsets : List ℕ) :
    LostActs env hits entries s (offsets.foldl (lostAddHint env) s) := by
  induction offsets generalizing s with
  | nil => exact .refl
  | cons x xs ih => exact (lostAddHint_acts s x).trans (ih _)

theorem lostAddEndHints_acts (s : LostScan) (endAt : ℕ) :
    LostActs env hits entries s (lostAddEndHints env s endAt) :=
  foldl_lostAddHint_acts s _

theorem lostJump_acts (s : LostScan) (endAt : ℕ) :
    LostActs env hits entries s (lostJump env s endAt) := by
  unfold lostJump
  split_ifs with hout
  · exact .refl
  · simp only [not_or, not_le, not_lt, Bool.not_eq_true] at hout
    exact .single (.jump endAt hout.1 hout.2.1 hout.2.2)

theorem lostStepOver_acts (s : LostScan) (endAt : ℕ) :
    LostActs env hits entries s (lostJump env (lostAddEndHints env s endAt) endAt) :=
  (lostAddEndHints_acts s endAt).trans (lostJump_acts _ endAt)

theorem lostAddTable_acts (s : LostScan) (start size : ℕ) (hentry : entries start size) :
    LostActs env hits entries s (lostAddTable env s start size) := by
  unfold lostAddTable
  split_ifs with hout hlisted hknown hend
  · exact .refl
  · exact .refl
  · exact .refl
  all_goals
    simp only [not_or, not_le, not_not] at hout
    have hadd : LostAct env hits entries s _ :=
      .table start size hentry hout.1 hout.2.1 hout.2.2 fun t ht hs hz => hknown (by
        simp only [List.any_eq_true, Bool.and_eq_true, beq_iff_eq]
        exact ⟨t, ht, hs, hz⟩)
  · exact .head hadd ((lostAddHint_acts _ _).trans (lostAddEndHints_acts _ _))
  · exact .head hadd (lostAddHint_acts _ _)

/-! ### Reporting -/

@[simp] theorem lostEffectiveHit_start (hit : LostHit) :
    (lostEffectiveHit env hit).start = hit.start := by
  unfold lostEffectiveHit
  split_ifs <;> rfl

@[simp] theorem lostEffectiveHit_size (hit : LostHit) :
    (lostEffectiveHit env hit).size = hit.size := by
  unfold lostEffectiveHit
  split_ifs <;> rfl

@[simp] theorem lostEffectiveHit_type (hit : LostHit) :
    (lostEffectiveHit env hit).type = hit.type := by
  unfold lostEffectiveHit
  split_ifs <;> rfl

theorem lostAddHint_reports (s : LostScan) (offset : ℕ) (rs : List RoverLostPart) :
    lostAddHint env { s with reports := rs } offset
      = { lostAddHint env s offset with reports := rs } := by
  unfold lostAddHint
  split_ifs <;> rfl

theorem foldl_lostAddHint_reports (s : LostScan) (offsets : List ℕ) (rs : List RoverLostPart) :
    offsets.foldl (lostAddHint env) { s with reports := rs }
      = { offsets.foldl (lostAddHint env) s with reports := rs } := by
  induction offsets generalizing s with
  | nil => rfl
  | cons x xs ih =>
    rw [List.foldl_cons, lostAddHint_reports]
    exact ih _

theorem lostJump_reports (s : LostScan) (endAt : ℕ) (rs : List RoverLostPart) :
    lostJump env { s with reports := rs } endAt
      = { lostJump env s endAt with reports := rs } := by
  unfold lostJump lostEvidence
  split_ifs <;> rfl

theorem lostAddHint_reports_eq (s : LostScan) (offset : ℕ) :
    (lostAddHint env s offset).reports = s.reports := by
  unfold lostAddHint
  split_ifs <;> rfl

theorem foldl_lostAddHint_reports_eq (s : LostScan) (offsets : List ℕ) :
    (offsets.foldl (lostAddHint env) s).reports = s.reports := by
  induction offsets generalizing s with
  | nil => rfl
  | cons x xs ih => rw [List.foldl_cons, ih, lostAddHint_reports_eq]

theorem lostJump_reports_eq (s : LostScan) (endAt : ℕ) :
    (lostJump env s endAt).reports = s.reports := by
  unfold lostJump
  split_ifs <;> rfl

/-- Recording a result, then stepping over it when it ends on the device. -/
theorem lostRecord_eq (s : LostScan) (hit : LostHit) (endAt : ℕ) :
    lostRecord env s hit endAt =
      if (lostPart env s hit endAt).flags.truncated then lostAccept env s hit endAt
      else lostJump env (lostAddEndHints env (lostAccept env s hit endAt) endAt) endAt := by
  have hafter : lostJump env (lostAddEndHints env (lostAccept env s hit endAt) endAt) endAt
      = { lostJump env (lostAddEndHints env (lostRemember s hit) endAt) endAt with
          reports := s.reports ++ [lostPart env s hit endAt] } := by
    unfold lostAccept
    unfold lostAddEndHints
    rw [foldl_lostAddHint_reports, lostJump_reports]
  have hsame : (lostJump env (lostAddEndHints env (lostRemember s hit) endAt) endAt).reports
      = s.reports := by
    unfold lostAddEndHints
    rw [lostJump_reports_eq, foldl_lostAddHint_reports_eq]
    rfl
  rw [hafter, ← hsame]
  unfold lostRecord
  dsimp only
  split_ifs with h
  · rfl
  · rfl

/-- A new result is recorded; the rest is hints and a jump. -/
theorem lostRecord_acts (s : LostScan) (hit : LostHit) (hhit : hits hit)
    (hig : lostIgnores env hit = false) (hnew : lostKnown s (lostEffectiveHit env hit) = false) :
    LostActs env hits entries s
      (lostRecord env s (lostEffectiveHit env hit) (lostEffectiveHit env hit).endAt) := by
  rw [lostRecord_eq]
  have hrec := @LostAct.record _ hits entries _ hit hhit hig hnew
  split_ifs
  · exact .single hrec
  · exact .head hrec (lostStepOver_acts _ _)

theorem lostReport_acts (cb : ℕ → Bool) (s : LostScan) (hit : LostHit) (hhit : hits hit) :
    LostActs env hits entries s (lostReport env cb s hit).1 := by
  unfold lostReport
  dsimp only
  split_ifs with hig hknown hend
  · exact .refl
  · exact lostJump_acts _ _
  · exact .refl
  · exact lostRecord_acts s hit hhit (Bool.not_eq_true _ ▸ hig) (Bool.not_eq_true _ ▸ hknown)

theorem lostReportAll_acts (cb : ℕ → Bool) (s : LostScan) (hs : List LostHit)
    (hhits : ∀ h ∈ hs, hits h) : LostActs env hits entries s (lostReportAll env cb s hs).1 := by
  induction hs generalizing s with
  | nil => exact .refl
  | cons h hs ih =>
    exact (lostReport_acts cb s h (hhits h List.mem_cons_self)).trans
      (ih _ fun x hx => hhits x (List.mem_cons_of_mem _ hx))

/-! ### Examining -/

theorem lostExamine_hits (s : LostScan) (c : ℕ) (buf : Buf) (len : ℕ) (positional : Bool) :
    (lostExamine env s c buf len positional).2
      = ((lostDetect env c buf len positional).map LostVerdict.hits).getD [] := by
  unfold lostExamine
  rcases lostDetect env c buf len positional with _ | ⟨h⟩ | ⟨first, count⟩ <;> rfl

theorem lostExamine_acts (s : LostScan) (c : ℕ) (buf : Buf) (len : ℕ) (positional : Bool)
    (hentries : ∀ start size, LostEbrAt env (lostDetect env c buf len positional) c start size →
      entries start size) :
    LostActs env hits entries s (lostExamine env s c buf len positional).1 := by
  unfold lostExamine
  cases hv : lostDetect env c buf len positional with
  | none => exact .refl
  | some v =>
    cases v with
    | hit h => exact .refl
    | ebr first count => exact lostAddTable_acts _ _ _ (hentries _ _ ⟨first, count, hv, rfl, rfl⟩)

theorem lostQuickCandidate_hits (s : LostScan) (c : ℕ) (endOnly : Bool) :
    (lostQuickCandidate env s c endOnly).2 = lostQuickHits env c endOnly := by
  unfold lostQuickCandidate lostQuickHits lostQuickVerdict lostQuickEnds
  dsimp only
  by_cases hend : endOnly ∨ env.size ≤ c
  · rw [if_pos (by simpa using hend)]
    cases lostRead env (c - lostTailLen env) (lostTailLen env) <;>
      rcases hend with rfl | hsize <;> simp [*]
  · rw [if_neg (by simpa using hend)]
    obtain ⟨hdata, hsize⟩ := not_or.mp hend
    cases lostRead env (c - lostTailLen env) (lostTailLen env) <;>
      cases lostRead env c (min (env.size - c) LOST_WINDOW) <;>
      simp [hdata, hsize, lostExamine_hits]

/-- A candidate changes the scan by the entry of an extended boot record. -/
theorem lostQuickCandidate_acts (s : LostScan) (c : ℕ) (endOnly : Bool)
    (hentries : ∀ start size, LostEbrAt env (lostQuickVerdict env c) c start size →
      entries start size) :
    LostActs env hits entries { s with trace := .candidate c :: s.trace }
      (lostQuickCandidate env s c endOnly).1 := by
  unfold lostQuickCandidate
  dsimp only
  by_cases hend : endOnly ∨ env.size ≤ c
  · rw [if_pos (by simpa using hend)]
  · rw [if_neg (by simpa using hend)]
    obtain ⟨-, hlt⟩ := not_or.mp hend
    cases hread : lostRead env c (min (env.size - c) LOST_WINDOW) with
    | none => exact .refl
    | some raw =>
      refine lostExamine_acts _ _ _ _ _ fun start size h => hentries start size ?_
      simpa only [lostQuickVerdict, if_neg hlt, hread, Option.bind_some] using h

end FsRover
