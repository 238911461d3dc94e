import Mathlib.Data.List.Induction
import FsRover.Io.Ntfsclone

/-!
# What the cluster map of an ntfsclone image holds

Until the walk finishes the runs hold what the stream has stored, each copy in a run of its own or
at the end of one, and the runs follow the stream. The sort and the pass that removes overlaps leave
each cluster to the run that starts lowest, the younger of two that start together. That is the last
copy when no run is shadowed: when no run starts inside an older run that starts lower, unless what
they share is left to a third run anyway.

## Main definitions

* `FsRover.NtfscloneInv` : the invariant of the walk.

## Main results

* `FsRover.NtfscloneWalk.inv` : the rounds of the scan keep it.
* `FsRover.ntfscloneScan_ends` : the scan for a cluster ends, and finds a cluster that is stored.
* `FsRover.ntfsclone_map_iff` : the finished map is right if and only if no run is shadowed.
-/

namespace FsRover

open Guards Extents Overlay

variable {img : NtfscloneImage} {s s' : NtfscloneScan} {log : List (ℕ × ℕ)}

/-- The runs in `ext` hold cluster `c` at `p`. -/
def NtfscloneHolds (img : NtfscloneImage) (ext : List NtfscloneExtent) (c p : ℕ) : Prop :=
  ∃ e ∈ ext, Covers NtfscloneExtent.lcn NtfscloneExtent.count e c ∧ e.dataOff img.stride c = p

/-- What holds of the scan state, with the clusters stored so far. -/
structure NtfscloneInv (img : NtfscloneImage) (s : NtfscloneScan) (log : List (ℕ × ℕ)) : Prop where
  open_ : s.scanDone = false
  log_iff : ∀ c p, (c, p) ∈ log ↔ NtfscloneHolds img s.extents c p
  log_sorted : log.Pairwise fun a b => a.2 < b.2
  log_lt : ∀ w ∈ log, w.2 < s.scanOff
  bounds : ∀ e ∈ s.extents, 0 < e.count ∧ e.lcn + e.count ≤ img.nrClusters + 1
    ∧ e.off + (e.count - 1) * img.stride < s.scanOff
  offs : s.extents.Pairwise fun a b => a.off + (a.count - 1) * img.stride < b.off
  last : s.extend = true → ∃ es e, s.extents = es ++ [e] ∧ e.lcn + e.count = s.scanLcn
    ∧ e.off + e.count * img.stride = s.scanOff
  ascending : s.ordered = true →
    Ascending NtfscloneExtent.lcn NtfscloneExtent.count 0 s.scanLcn s.extents

/-! ### One round -/

theorem ntfscloneOpen_clusterSize {file : GrubFile} (h : ntfscloneOpen file = .ok img) :
    0 < img.clusterSize := by
  simp only [ntfscloneOpen, bind_eq_ok_iff, refuseIf_eq_ok_iff, exists_const] at h
  obtain ⟨hdr, -, -, dataOff, -, hsize, -, endAt, -, -, h⟩ := h
  obtain rfl := Except.ok.inj h
  change 0 < lostLe32 hdr 18
  omega

theorem ntfscloneExtendLast_append (es : List NtfscloneExtent) (e : NtfscloneExtent) :
    ntfscloneExtendLast (es ++ [e]) = es ++ [{ e with count := e.count + 1 }] := by
  induction es with
  | nil => rfl
  | cons a es ih =>
    cases es with
    | nil => rfl
    | cons b es => exact congrArg (a :: ·) ih

/-- A round that does not map a cluster and does not finish has read a gap. -/
theorem ntfscloneStep_gap {call : ℕ} (h : ntfscloneStep img call s = .ok (s', none))
    (hdone : s'.scanDone = false) : ∃ count, ntfscloneGap img s count = .ok s' := by
  have hfinish : ∀ {s'}, ntfscloneFinishScan img s = s' → s'.scanDone = true := by
    rintro _ rfl
    rfl
  simp only [ntfscloneStep] at h
  split_ifs at h with hend
  · rw [hfinish (Prod.mk.inj (Except.ok.inj h)).1] at hdone
    cases hdone
  · split at h
    · cases h
    · rw [hfinish (Prod.mk.inj (Except.ok.inj h)).1] at hdone
      cases hdone
    · split_ifs at h with hgap hnext
      · split at h
        · cases h
        · rw [hfinish (Prod.mk.inj (Except.ok.inj h)).1] at hdone
          cases hdone
        · rename_i record _
          refine ⟨int64 (lostLe64 record 1), ?_⟩
          cases hg : ntfscloneGap img s (int64 (lostLe64 record 1)) with
          | error e =>
            rw [hg] at h
            cases h
          | ok t =>
            rw [hg] at h
            exact congrArg Except.ok (Prod.mk.inj (Except.ok.inj h)).1
      · cases hg : ntfscloneNext img s with
        | error e =>
          rw [hg] at h
          cases h
        | ok t =>
          rw [hg] at h
          cases h

theorem ntfscloneStep_stored {call c : ℕ} (h : ntfscloneStep img call s = .ok (s', some c)) :
    c = s.scanLcn ∧ s.scanLcn ≤ img.nrClusters ∧ ntfscloneNext img s = .ok s' := by
  simp only [ntfscloneStep] at h
  split_ifs at h with hend
  · cases h
  · split at h
    · cases h
    · cases h
    · split_ifs at h with hgap hnext
      · split at h
        · cases h
        · cases h
        · rename_i record _
          cases hg : ntfscloneGap img s (int64 (lostLe64 record 1)) with
          | error e =>
            rw [hg] at h
            cases h
          | ok t =>
            rw [hg] at h
            cases h
      · cases hg : ntfscloneNext img s with
        | error e =>
          rw [hg] at h
          cases h
        | ok t =>
          rw [hg] at h
          obtain ⟨rfl, hc⟩ := Prod.mk.inj (Except.ok.inj h)
          exact ⟨(Option.some.inj hc).symm, Nat.le_of_not_lt hend, rfl⟩

/-- A gap moves on in the stream, and in an ordered stream also on the volume. -/
theorem ntfscloneGap_spec {count : ℤ} (h : ntfscloneGap img s count = .ok s') :
    s'.scanDone = s.scanDone ∧ s'.extents = s.extents ∧ s'.extend = false ∧ s.scanOff ≤ s'.scanOff
      ∧ (s'.ordered = true → s.ordered = true ∧ s.scanLcn ≤ s'.scanLcn) := by
  simp only [ntfscloneGap, bind_eq_ok_iff, refuseIf_eq_ok_iff, exists_const] at h
  obtain ⟨-, -, -, h⟩ := h
  obtain rfl := Except.ok.inj h
  refine ⟨rfl, rfl, rfl, Nat.le_add_right _ _, fun hord => ?_⟩
  simp only [Bool.and_eq_true, Bool.not_eq_true', decide_eq_false_iff_not] at hord
  exact ⟨hord.1, by dsimp only; omega⟩

/-- A cluster record is read whole, and joins the last run or begins one. -/
theorem ntfscloneNext_spec (hcluster : 0 < img.clusterSize) (h : ntfscloneNext img s = .ok s') :
    s'.scanDone = s.scanDone ∧ s'.ordered = s.ordered ∧ s'.scanLcn = s.scanLcn + 1
      ∧ s.scanOff + 1 < s'.scanOff
      ∧ (s'.extend = true → s'.scanOff = s.scanOff + img.stride)
      ∧ (s.extend = true → s'.extents = ntfscloneExtendLast s.extents)
      ∧ (s.extend = false → s'.extents = s.extents ++ [⟨s.scanLcn, s.scanOff, 1⟩]) := by
  simp only [ntfscloneNext, bind_eq_ok_iff, refuseIf_eq_ok_iff, exists_const, require_eq_ok_iff] at h
  obtain ⟨vaddr, -, hdev, endAt, hend, -, h⟩ := h
  obtain ⟨-, rfl⟩ := grubAdd_eq_some.mp hend
  obtain ⟨extents, hgrow, hnew, rfl⟩ : ∃ extents,
      (s.extend = true → extents = ntfscloneExtendLast s.extents)
        ∧ (s.extend = false → extents = s.extents ++ [⟨s.scanLcn, s.scanOff, 1⟩])
        ∧ s' = { s with
            extents
            extend := min (img.totalBytes - vaddr) img.clusterSize = img.clusterSize
            scanOff := s.scanOff + (1 + min (img.totalBytes - vaddr) img.clusterSize)
            scanLcn := s.scanLcn + 1 } := by
    split_ifs at h with hs
    · exact ⟨_, fun _ => rfl, fun hf => (by rw [hs] at hf; cases hf), (Except.ok.inj h).symm⟩
    · rw [bind_eq_ok_iff] at h
      obtain ⟨extents, hext, h⟩ := h
      rw [ntfscloneAddExtent, refuseIf_bind_eq_ok_iff] at hext
      exact ⟨_, fun ht => absurd ht hs, fun _ => (Except.ok.inj hext.2).symm,
        (Except.ok.inj h).symm⟩
  refine ⟨rfl, rfl, rfl, ?_, fun hfull => ?_, hgrow, hnew⟩
  · change s.scanOff + 1 < s.scanOff + (1 + min (img.totalBytes - vaddr) img.clusterSize)
    omega
  · have hfull : min (img.totalBytes - vaddr) img.clusterSize = img.clusterSize :=
      of_decide_eq_true hfull
    change s.scanOff + (1 + min (img.totalBytes - vaddr) img.clusterSize) = s.scanOff + img.stride
    rw [hfull, NtfscloneImage.stride, Nat.add_comm 1]

/-- A round that finishes the scan has sorted what was recorded before it. -/
theorem ntfscloneStep_done (hcluster : 0 < img.clusterSize) (hopen : s.scanDone = false) {call : ℕ}
    {mapped : Option ℕ} (h : ntfscloneStep img call s = .ok (s', mapped)) (hdone : s'.scanDone = true) :
    s' = ntfscloneFinishScan img s := by
  have hstay : ∀ {t}, t.scanDone = s.scanDone → t ≠ s' := by
    rintro t ht rfl
    rw [ht, hopen] at hdone
    cases hdone
  simp only [ntfscloneStep] at h
  split_ifs at h with hend
  · exact (Prod.mk.inj (Except.ok.inj h)).1.symm
  · split at h
    · cases h
    · exact (Prod.mk.inj (Except.ok.inj h)).1.symm
    · split_ifs at h with hgap hnext
      · split at h
        · cases h
        · exact (Prod.mk.inj (Except.ok.inj h)).1.symm
        · rename_i record _
          cases hg : ntfscloneGap img s (int64 (lostLe64 record 1)) with
          | error e =>
            rw [hg] at h
            cases h
          | ok t =>
            rw [hg] at h
            exact absurd (Prod.mk.inj (Except.ok.inj h)).1 (hstay (ntfscloneGap_spec hg).1)
      · cases hg : ntfscloneNext img s with
        | error e =>
          rw [hg] at h
          cases h
        | ok t =>
          rw [hg] at h
          exact absurd (Prod.mk.inj (Except.ok.inj h)).1 (hstay (ntfscloneNext_spec hcluster hg).1)

/-! ### The invariant -/

theorem NtfscloneInv.begin : NtfscloneInv img (ntfscloneBegin img) [] where
  open_ := rfl
  log_iff := fun c p => ⟨(fun h => by cases h), fun ⟨_, he, _⟩ => by cases he⟩
  log_sorted := List.Pairwise.nil
  log_lt := fun w hw => by cases hw
  bounds := fun e he => by cases he
  offs := List.Pairwise.nil
  last := fun h => by cases h
  ascending := fun _ => Nat.le_refl 0

theorem NtfscloneInv.gap (hs : NtfscloneInv img s log) {count : ℤ}
    (h : ntfscloneGap img s count = .ok s') : NtfscloneInv img s' log := by
  obtain ⟨hdone, hextents, hextend, hoff, hord⟩ := ntfscloneGap_spec h
  exact {
    open_ := hdone.trans hs.open_
    log_iff := hextents ▸ hs.log_iff
    log_sorted := hs.log_sorted
    log_lt := fun w hw => (hs.log_lt w hw).trans_le hoff
    bounds := fun e he => by
      obtain ⟨hpos, hle, hlt⟩ := hs.bounds e (hextents ▸ he)
      exact ⟨hpos, hle, hlt.trans_le hoff⟩
    offs := hextents ▸ hs.offs
    last := fun ht => by
      rw [hextend] at ht
      cases ht
    ascending := fun ht => by
      obtain ⟨hold, hle⟩ := hord ht
      rw [hextents]
      exact (hs.ascending hold).mono (Nat.le_refl 0) hle }

/-- A run covers one cluster more when it grows, at the place that follows. -/
theorem ntfscloneHolds_grown {es : List NtfscloneExtent} {e : NtfscloneExtent} {c p : ℕ} :
    NtfscloneHolds img (es ++ [{ e with count := e.count + 1 }]) c p ↔
      NtfscloneHolds img (es ++ [e]) c p
        ∨ c = e.lcn + e.count ∧ p = e.off + e.count * img.stride + 1 := by
  simp only [NtfscloneHolds, List.mem_append, List.mem_singleton, or_and_right, exists_or,
    exists_eq_left, Covers]
  have hdata : ∀ c, NtfscloneExtent.dataOff img.stride { e with count := e.count + 1 } c
      = e.dataOff img.stride c := fun _ => rfl
  have hnew : e.dataOff img.stride (e.lcn + e.count) = e.off + e.count * img.stride + 1 := by
    rw [NtfscloneExtent.dataOff, Nat.add_sub_cancel_left]
  constructor
  · rintro (h | ⟨⟨hle, hlt⟩, hp⟩)
    · exact .inl (.inl h)
    · rw [hdata] at hp
      rcases Nat.lt_or_ge c (e.lcn + e.count) with hin | hout
      · exact .inl (.inr ⟨⟨hle, hin⟩, hp⟩)
      · obtain rfl : c = e.lcn + e.count := by omega
        exact .inr ⟨rfl, by rw [← hp, hnew]⟩
  · rintro ((h | ⟨⟨hle, hlt⟩, hp⟩) | ⟨rfl, rfl⟩)
    · exact .inl h
    · exact .inr ⟨⟨hle, by omega⟩, hp⟩
    · exact .inr ⟨⟨Nat.le_add_right _ _, by omega⟩, by rw [hdata, hnew]⟩

theorem ntfscloneHolds_new {es : List NtfscloneExtent} {lcn off c p : ℕ} :
    NtfscloneHolds img (es ++ [⟨lcn, off, 1⟩]) c p ↔
      NtfscloneHolds img es c p ∨ c = lcn ∧ p = off + 1 := by
  simp only [NtfscloneHolds, List.mem_append, List.mem_singleton, or_and_right, exists_or,
    exists_eq_left, Covers]
  have hnew : NtfscloneExtent.dataOff img.stride ⟨lcn, off, 1⟩ lcn = off + 1 := by
    simp [NtfscloneExtent.dataOff]
  constructor
  · rintro (h | ⟨⟨hle, hlt⟩, hp⟩)
    · exact .inl h
    · obtain rfl : c = lcn := by omega
      exact .inr ⟨rfl, by rw [← hp, hnew]⟩
  · rintro (h | ⟨rfl, rfl⟩)
    · exact .inl h
    · exact .inr ⟨⟨Nat.le_refl _, Nat.lt_succ_self _⟩, hnew⟩

theorem NtfscloneInv.stored (hcluster : 0 < img.clusterSize) (hs : NtfscloneInv img s log)
    (hlcn : s.scanLcn ≤ img.nrClusters) (h : ntfscloneNext img s = .ok s') :
    NtfscloneInv img s' (log ++ [(s.scanLcn, s.scanOff + 1)]) := by
  obtain ⟨hdone, hord, hnext, hoff, hstride, hgrow, hnew⟩ := ntfscloneNext_spec hcluster h
  have hopen : s'.scanDone = false := hdone.trans hs.open_
  have hsorted : (log ++ [(s.scanLcn, s.scanOff + 1)]).Pairwise fun a b => a.2 < b.2 := by
    refine List.pairwise_append.mpr ⟨hs.log_sorted, List.pairwise_singleton _ _, ?_⟩
    intro a ha b hb
    rw [List.mem_singleton.mp hb]
    exact (hs.log_lt a ha).trans (Nat.lt_succ_self _)
  have hlt : ∀ w ∈ log ++ [(s.scanLcn, s.scanOff + 1)], w.2 < s'.scanOff := by
    intro w hw
    rcases List.mem_append.mp hw with hw | hw
    · have := hs.log_lt w hw
      omega
    · rw [List.mem_singleton.mp hw]
      exact hoff
  have hmem : ∀ c p, (c, p) ∈ log ++ [(s.scanLcn, s.scanOff + 1)] ↔
      NtfscloneHolds img s.extents c p ∨ c = s.scanLcn ∧ p = s.scanOff + 1 := fun c p => by
    rw [List.mem_append, List.mem_singleton, hs.log_iff, Prod.mk.injEq]
  cases hextend : s.extend with
  | true =>
    -- the last run grows by one cluster
    obtain ⟨es, e, hes, hend, hplace⟩ := hs.last hextend
    have hext : s'.extents = es ++ [{ e with count := e.count + 1 }] := by
      rw [hgrow hextend, hes, ntfscloneExtendLast_append]
    obtain ⟨hpairs, -, hcross⟩ := List.pairwise_append.mp (hes ▸ hs.offs)
    obtain ⟨hpos, hle, hbelow⟩ := hs.bounds e (by simp [hes])
    exact {
      open_ := hopen
      log_iff := fun c p => by rw [hmem, hext, ntfscloneHolds_grown, hes, hend, hplace]
      log_sorted := hsorted
      log_lt := hlt
      bounds := fun a ha => by
        rw [hext] at ha
        rcases List.mem_append.mp ha with ha | ha
        · obtain ⟨h₁, h₂, h₃⟩ := hs.bounds a (by simp [hes, ha])
          exact ⟨h₁, h₂, by omega⟩
        · rw [List.mem_singleton.mp ha]
          refine ⟨Nat.succ_pos _, by dsimp only; omega, ?_⟩
          dsimp only
          rw [Nat.add_sub_cancel, hplace]
          omega
      offs := by
        rw [hext]
        refine List.pairwise_append.mpr ⟨hpairs, List.pairwise_singleton _ _, fun a ha b hb => ?_⟩
        rw [List.mem_singleton.mp hb]
        exact hcross a ha e (List.mem_singleton_self e)
      last := fun ht => by
        refine ⟨es, { e with count := e.count + 1 }, hext, ?_, ?_⟩
        · dsimp only
          omega
        · dsimp only
          rw [hstride ht, Nat.succ_mul]
          omega
      ascending := fun ht => by
        have hasc := hs.ascending (hord ▸ ht)
        rw [hes] at hasc
        rw [hext, hnext]
        obtain ⟨mid, hfirst, hlast⟩ := ascending_append_iff.mp hasc
        refine hfirst.append ⟨hlast.1, Nat.succ_pos _, ?_⟩
        change e.lcn + (e.count + 1) ≤ s.scanLcn + 1
        omega }
  | false =>
    have hext := hnew hextend
    exact {
      open_ := hopen
      log_iff := fun c p => by rw [hmem, hext, ntfscloneHolds_new]
      log_sorted := hsorted
      log_lt := hlt
      bounds := fun a ha => by
        rw [hext] at ha
        rcases List.mem_append.mp ha with ha | ha
        · obtain ⟨h₁, h₂, h₃⟩ := hs.bounds a ha
          exact ⟨h₁, h₂, by omega⟩
        · rw [List.mem_singleton.mp ha]
          refine ⟨Nat.one_pos, by dsimp only; omega, ?_⟩
          dsimp only
          omega
      offs := by
        rw [hext]
        refine List.pairwise_append.mpr ⟨hs.offs, List.pairwise_singleton _ _, fun a ha b hb => ?_⟩
        rw [List.mem_singleton.mp hb]
        exact (hs.bounds a ha).2.2
      last := fun ht => by
        refine ⟨s.extents, ⟨s.scanLcn, s.scanOff, 1⟩, hext, hnext.symm, ?_⟩
        rw [hstride ht, Nat.one_mul]
      ascending := fun ht => by
        rw [hext, hnext]
        exact (hs.ascending (hord ▸ ht)).append ⟨Nat.le_refl _, Nat.one_pos, Nat.le_refl _⟩ }

/-- The rounds of the scan keep the invariant. -/
theorem NtfscloneWalk.inv (hcluster : 0 < img.clusterSize) (h : NtfscloneWalk img s log) :
    NtfscloneInv img s log := by
  induction h with
  | begin => exact .begin
  | gap _ hstep hdone ih =>
    obtain ⟨count, hgap⟩ := ntfscloneStep_gap hstep hdone
    exact ih.gap hgap
  | stored _ hstep ih =>
    obtain ⟨rfl, hlcn, hnext⟩ := ntfscloneStep_stored hstep
    exact ih.stored hcluster hlcn hnext

/-- A round that does not finish the scan moves on in the stream. -/
theorem ntfscloneStep_advances (hcluster : 0 < img.clusterSize) {call : ℕ} {mapped : Option ℕ}
    (h : ntfscloneStep img call s = .ok (s', mapped)) (hdone : s'.scanDone = false) :
    s.scanOff < img.file.size ∧ s.scanOff < s'.scanOff := by
  constructor
  · by_contra hend
    simp only [ntfscloneStep, ntfsclonePeek, if_pos (Nat.le_of_not_lt hend), ite_self] at h
    obtain ⟨rfl, -⟩ := Prod.mk.inj (Except.ok.inj h)
    cases hdone
  · cases mapped with
    | none =>
      obtain ⟨count, hgap⟩ := ntfscloneStep_gap h hdone
      simp only [ntfscloneGap, bind_eq_ok_iff, refuseIf_eq_ok_iff, exists_const] at hgap
      obtain rfl := Except.ok.inj hgap.2.2.2
      exact Nat.lt_add_of_pos_right (by decide)
    | some c => exact Nat.lt_of_succ_lt (ntfscloneNext_spec hcluster (ntfscloneStep_stored h).2.2).2.2.2.1

/-- What a scan for a cluster leaves: the map of a walk that is over, or a walk that goes on; it only
stops without an error where an ordered table holds the cluster. -/
def NtfscloneScanned (img : NtfscloneImage) (want : ℕ) (r : Except GrubError Unit)
    (s : NtfscloneScan) : Prop :=
  if s.scanDone then ∃ t log, NtfscloneWalk img t log ∧ s = ntfscloneFinishScan img t
  else (∃ log, NtfscloneWalk img s log)
    ∧ (r = .ok () → s.ordered = true ∧ ∃ p, NtfscloneHolds img s.extents want p)

theorem ntfscloneScan_spec (hcluster : 0 < img.clusterSize) (want : ℕ) {fuel call : ℕ}
    (hwalk : NtfscloneWalk img s log) (hfuel : img.file.size - s.scanOff + 2 ≤ fuel) :
    ∃ r s', ntfscloneScan img want fuel call s = some (r, s') ∧ NtfscloneScanned img want r s' := by
  induction fuel generalizing call s log with
  | zero => omega
  | succ fuel ih =>
    have hopen := (hwalk.inv hcluster).open_
    rw [ntfscloneScan, if_neg (by rw [hopen]; exact Bool.false_ne_true)]
    cases hstep : ntfscloneStep img call s with
    | error e =>
      refine ⟨.error e, s, rfl, ?_⟩
      rw [NtfscloneScanned, if_neg (by rw [hopen]; exact Bool.false_ne_true)]
      exact ⟨⟨log, hwalk⟩, fun h => by cases h⟩
    | ok round =>
      obtain ⟨t, mapped⟩ := round
      cases hdone : t.scanDone with
      | true =>
        have hend : NtfscloneScanned img want (.ok ()) t := by
          rw [NtfscloneScanned, if_pos hdone]
          exact ⟨s, log, hwalk, ntfscloneStep_done hcluster hopen hstep hdone⟩
        obtain ⟨fuel, rfl⟩ : ∃ k, fuel = k + 1 := ⟨fuel - 1, by omega⟩
        refine ⟨.ok (), t, ?_, hend⟩
        simp only [ntfscloneScan, hdone, if_true, ite_self]
      | false =>
        obtain ⟨hlt, hoff⟩ := ntfscloneStep_advances hcluster hstep hdone
        obtain ⟨log', hnext, hwant⟩ : ∃ log', NtfscloneWalk img t log'
            ∧ (mapped = some want → ∃ p, (want, p) ∈ log') := by
          cases mapped with
          | none => exact ⟨log, hwalk.gap hstep hdone, fun h => by cases h⟩
          | some c =>
            refine ⟨_, hwalk.stored hstep, fun h => ⟨s.scanOff + 1, ?_⟩⟩
            exact List.mem_append_right _ (Option.some.inj h ▸ List.mem_singleton_self _)
        simp only
        split_ifs with hfound
        · refine ⟨.ok (), t, rfl, ?_⟩
          rw [NtfscloneScanned, if_neg (by rw [hdone]; exact Bool.false_ne_true)]
          obtain ⟨p, hp⟩ := hwant hfound.2
          exact ⟨⟨log', hnext⟩, fun _ => ⟨hfound.1, p, ((hnext.inv hcluster).log_iff want p).mp hp⟩⟩
        · exact ih hnext (by omega)

/-- From any state of the walk the scan for a cluster ends. -/
theorem ntfscloneScan_ends {file : GrubFile} (hopen : ntfscloneOpen file = .ok img)
    (hwalk : NtfscloneWalk img s log) (want call : ℕ) :
    ∃ r s', ntfscloneScan img want (img.file.size + 2) call s = some (r, s')
      ∧ NtfscloneScanned img want r s' :=
  ntfscloneScan_spec (ntfscloneOpen_clusterSize hopen) want hwalk
    (Nat.add_le_add_right (Nat.sub_le _ _) 2)

/-! ### The finished map -/

/-- A cluster is stored further on in a run that is further on. -/
theorem NtfscloneInv.dataOff_lt (hs : NtfscloneInv img s log) {a b : NtfscloneExtent}
    (ha : a ∈ s.extents) (hb : b ∈ s.extents) {c : ℕ}
    (hac : Covers NtfscloneExtent.lcn NtfscloneExtent.count a c) (hoff : a.off < b.off) :
    a.dataOff img.stride c < b.dataOff img.stride c := by
  have hlast : a.off + (a.count - 1) * img.stride < b.off := by
    obtain ⟨i, hi, rfl⟩ := List.getElem_of_mem ha
    obtain ⟨j, hj, rfl⟩ := List.getElem_of_mem hb
    rcases Nat.lt_trichotomy i j with hij | rfl | hji
    · exact List.pairwise_iff_getElem.mp hs.offs i j hi hj hij
    · exact absurd hoff (Nat.lt_irrefl _)
    · have := List.pairwise_iff_getElem.mp hs.offs j i hj hi hji
      omega
  have hmul : (c - a.lcn) * img.stride ≤ (a.count - 1) * img.stride := by
    have := hac.1
    have := hac.2
    exact Nat.mul_le_mul_right _ (by omega)
  rw [NtfscloneExtent.dataOff, NtfscloneExtent.dataOff]
  omega

theorem NtfscloneInv.off_inj (hs : NtfscloneInv img s log) {a b : NtfscloneExtent}
    (ha : a ∈ s.extents) (hb : b ∈ s.extents) (hoff : a.off = b.off) : a = b := by
  obtain ⟨i, hi, rfl⟩ := List.getElem_of_mem ha
  obtain ⟨j, hj, rfl⟩ := List.getElem_of_mem hb
  rcases Nat.lt_trichotomy i j with hij | rfl | hji
  · have := List.pairwise_iff_getElem.mp hs.offs i j hi hj hij
    omega
  · rfl
  · have := List.pairwise_iff_getElem.mp hs.offs j i hj hi hji
    omega

/-- A restore leaves a cluster with the copy that lies furthest on. -/
theorem ntfscloneRestored_eq_some {log : List (ℕ × ℕ)} (hlog : log.Pairwise fun a b => a.2 < b.2)
    {c p : ℕ} : ntfscloneRestored log c = some p ↔ (c, p) ∈ log ∧ ∀ q, (c, q) ∈ log → q ≤ p := by
  induction log using List.reverseRecOn with
  | nil => simp [ntfscloneRestored]
  | append_singleton log w ih =>
    obtain ⟨hrest, -, hcross⟩ := List.pairwise_append.mp hlog
    have hbelow : ∀ a ∈ log, a.2 < w.2 := fun a ha => hcross a ha w (List.mem_singleton_self w)
    rw [ntfscloneRestored, List.filter_append]
    by_cases hw : w.1 = c
    · rw [List.filter_cons_of_pos (by simpa using hw), List.filter_nil, List.getLast?_concat,
        Option.map_some, Option.some.injEq]
      constructor
      · rintro rfl
        refine ⟨by simp [← hw], fun q hq => ?_⟩
        rcases List.mem_append.mp hq with hq | hq
        · exact (hbelow _ hq).le
        · exact (congrArg Prod.snd (List.mem_singleton.mp hq)).le
      · rintro ⟨hmem, hmax⟩
        have hle := hmax w.2 (by simp [← hw])
        rcases List.mem_append.mp hmem with hp | hp
        · have := hbelow _ hp
          dsimp only at this
          omega
        · exact (congrArg Prod.snd (List.mem_singleton.mp hp)).symm
    · rw [List.filter_cons_of_neg (by simpa using hw), List.filter_nil, List.append_nil,
        ← ntfscloneRestored, ih hrest]
      have hmem : ∀ q, (c, q) ∈ log ++ [w] ↔ (c, q) ∈ log := fun q => by
        rw [List.mem_append, List.mem_singleton, or_iff_left]
        rintro rfl
        exact hw rfl
      simp only [hmem]

theorem NtfscloneInv.restored_iff (hs : NtfscloneInv img s log) {c p : ℕ} :
    ntfscloneRestored log c = some p ↔
      Latest NtfscloneExtent.lcn NtfscloneExtent.count NtfscloneExtent.off
        (fun e c => e.dataOff img.stride c) s.extents c p := by
  rw [ntfscloneRestored_eq_some hs.log_sorted, hs.log_iff]
  constructor
  · rintro ⟨⟨a, ha, hac, rfl⟩, hmax⟩
    refine ⟨a, ha, hac, rfl, fun b hb hbc => Nat.le_of_not_lt fun hlt => ?_⟩
    have hle := hmax _ ((hs.log_iff c _).mpr ⟨b, hb, hbc, rfl⟩)
    have hgt := hs.dataOff_lt ha hb hac hlt
    omega
  · rintro ⟨a, ha, hac, rfl, hlast⟩
    refine ⟨⟨a, ha, hac, rfl⟩, fun q hq => ?_⟩
    obtain ⟨b, hb, hbc, rfl⟩ := (hs.log_iff c q).mp hq
    rcases Nat.lt_or_ge b.off a.off with hlt | hge
    · exact (hs.dataOff_lt hb ha hbc hlt).le
    · obtain rfl := hs.off_inj hb ha (Nat.le_antisymm (hlast b hb hbc) hge)
      exact Nat.le_refl _

/-- After sort and pass the map is right if and only if no run is shadowed. -/
theorem NtfscloneInv.sorted_map_iff (hs : NtfscloneInv img s log) :
    NtfscloneMapOk img (ntfscloneDropOverlaps img (ntfscloneSortExtents s.extents)) log ↔
      Unshadowed NtfscloneExtent.lcn NtfscloneExtent.count NtfscloneExtent.off s.extents := by
  have hstart : ∀ (e : NtfscloneExtent) k, k < e.count → (e.cut img.stride k).lcn = e.lcn + k :=
    fun _ _ _ => rfl
  have hlen : ∀ (e : NtfscloneExtent) k, k < e.count → (e.cut img.stride k).count = e.count - k :=
    fun _ _ _ => rfl
  have hvalue : ∀ (e : NtfscloneExtent) k x, k < e.count → e.lcn + k ≤ x →
      (e.cut img.stride k).dataOff img.stride x = e.dataOff img.stride x := by
    intro e k x _ hle
    have hx : x - e.lcn = k + (x - (e.lcn + k)) := by omega
    rw [NtfscloneExtent.dataOff, NtfscloneExtent.dataOff, hx, Nat.add_mul]
    simp only [NtfscloneExtent.cut]
    omega
  have hperm := Heap.perm_map_sort NtfscloneExtent.rank s.extents
  have hsorted := Heap.pairwise_map_sort NtfscloneExtent.rank s.extents
  have hasc : ∃ hi, Ascending NtfscloneExtent.lcn NtfscloneExtent.count 0 hi
      (ntfscloneDropOverlaps img (ntfscloneSortExtents s.extents)) := by
    refine ⟨img.nrClusters + 1, ascending_trim hstart hlen (Nat.zero_le _) fun e he => ?_⟩
    obtain ⟨hpos, hle, -⟩ := hs.bounds e (hperm.mem_iff.mp he)
    exact ⟨hpos, hle⟩
  have hiff := trim_latest_iff hstart hlen hvalue hperm hsorted
    (fun a ha b hb heq => hs.off_inj ha hb heq)
    (fun a ha b hb x hax hbx heq => by
      rcases Nat.lt_trichotomy a.off b.off with hlt | hoff | hgt
      · have := hs.dataOff_lt ha hb hax hlt
        omega
      · exact hs.off_inj ha hb hoff
      · have := hs.dataOff_lt hb ha hbx hgt
        omega)
  rw [← hiff, NtfscloneMapOk, and_iff_right hasc]
  refine forall_congr' fun c => ?_
  simp only [← hs.restored_iff]
  exact ⟨fun h v => h ▸ Iff.rfl, fun h => Option.ext h⟩

/-- When a round finishes the scan, the extent table is sorted and disjoint and maps every cluster to
its last copy in the stream if and only if no run of the stream is shadowed. -/
theorem ntfsclone_map_iff {file : GrubFile} (hopen : ntfscloneOpen file = .ok img)
    (hwalk : NtfscloneWalk img s log) {call : ℕ} {mapped : Option ℕ}
    (hstep : ntfscloneStep img call s = .ok (s', mapped)) (hdone : s'.scanDone = true) :
    NtfscloneMapOk img s'.extents log ↔
      Unshadowed NtfscloneExtent.lcn NtfscloneExtent.count NtfscloneExtent.off s.extents := by
  have hcluster := ntfscloneOpen_clusterSize hopen
  have hs := hwalk.inv hcluster
  rw [ntfscloneStep_done hcluster hs.open_ hstep hdone, ntfscloneFinishScan]
  cases hord : s.ordered with
  | false => exact hs.sorted_map_iff
  | true =>
    -- an ordered stream stores every cluster once
    have hasc := hs.ascending hord
    refine iff_of_true ⟨⟨s.scanLcn, hasc⟩, fun c => Option.ext fun p => ?_⟩
      (unshadowed_of_ascending hasc)
    rw [hs.restored_iff, ntfscloneLookup, if_pos rfl, Option.map_eq_some_iff]
    constructor
    · rintro ⟨a, ha, rfl⟩
      obtain ⟨hmem, hac⟩ := find_mem ha
      refine ⟨a, hmem, hac, rfl, fun b hb hbc => ?_⟩
      rw [hasc.covers_unique hb hmem hbc hac]
    · rintro ⟨a, ha, hac, rfl, -⟩
      cases hfind : find NtfscloneExtent.lcn NtfscloneExtent.count s.extents c with
      | none => exact absurd hac (find_eq_none_iff.mp hfind a ha)
      | some f =>
        obtain ⟨hmem, hfc⟩ := find_mem hfind
        exact ⟨f, rfl, by rw [hasc.covers_unique hmem ha hfc hac]⟩

/-! ### A stream that stores a cluster twice -/

/-- Clusters 0 and 1, a gap back to cluster 1, and cluster 1 again. -/
def ntfscloneTwice : GrubFile where
  size := 1594
  byte := Buf.ofFields [
    (0, [0, 0x6e, 0x74, 0x66, 0x73, 0x63, 0x6c, 0x6f, 0x6e, 0x65, 0x2d, 0x69, 0x6d, 0x61, 0x67, 0x65]),
    (16, [8, 0]), (18, [0, 2, 0, 0]), (22, [0, 6]), (30, [2]), (46, [1]), (559, [1]),
    (1073, [255, 255, 255, 255, 255, 255, 255, 255]), (1081, [1])]
  fault := fun _ _ => none
  size_lt := by decide

def ntfscloneTwiceImage : NtfscloneImage := ⟨ntfscloneTwice, 1536, 512, 2, 46⟩

/-- The state of its scan before the last round. -/
def ntfscloneTwiceScan : NtfscloneScan where
  scanOff := 1594
  scanLcn := 2
  scanDone := false
  ordered := false
  extend := true
  extents := [⟨0, 46, 2⟩, ⟨1, 1081, 1⟩]

theorem ntfscloneTwice_open : ntfscloneOpen ntfscloneTwice = .ok ntfscloneTwiceImage := by
  have hread : ntfsclonePread ntfscloneTwice 0 0 NTFSCLONE_HEADER_SIZE_OLD
      = .ok (ntfscloneTwice.byte.from 0) := by rfl
  have hmagic : bytesAt (ntfscloneTwice.byte.from 0) 0
      [0, 0x6e, 0x74, 0x66, 0x73, 0x63, 0x6c, 0x6f, 0x6e, 0x65, 0x2d, 0x69, 0x6d, 0x61, 0x67, 0x65] := by
    decide
  have hdata : ntfscloneDataOff ntfscloneTwice (ntfscloneTwice.byte.from 0) = .ok 46 := by rfl
  have hsize : lostLe32 (ntfscloneTwice.byte.from 0) 18 = 512 := by decide
  have htotal : lostLe64 (ntfscloneTwice.byte.from 0) 22 = 1536 := by decide
  have hcount : int64 (lostLe64 (ntfscloneTwice.byte.from 0) 30) = 2 := by decide
  have hlast : sub64 1536 512 = 1024 := by decide
  simp [ntfscloneOpen, hread, hmagic, hdata, hsize, htotal, hcount, hlast, bind, Except.bind, refuseIf,
    require, grubMul, NTFSCLONE_CLUSTER_SIZE_MAX, ntfscloneTwiceImage]

theorem ntfscloneTwice_walk :
    NtfscloneWalk ntfscloneTwiceImage ntfscloneTwiceScan [(0, 47), (1, 560), (1, 1082)] := by
  have hzero : ntfscloneStep ntfscloneTwiceImage 0 (ntfscloneBegin ntfscloneTwiceImage)
      = .ok (⟨559, 1, false, true, true, [⟨0, 46, 1⟩]⟩, some 0) := by rfl
  have hone : ntfscloneStep ntfscloneTwiceImage 0 ⟨559, 1, false, true, true, [⟨0, 46, 1⟩]⟩
      = .ok (⟨1072, 2, false, true, true, [⟨0, 46, 2⟩]⟩, some 1) := by rfl
  have hgap : ntfscloneStep ntfscloneTwiceImage 0 ⟨1072, 2, false, true, true, [⟨0, 46, 2⟩]⟩
      = .ok (⟨1081, 1, false, false, false, [⟨0, 46, 2⟩]⟩, none) := by decide +kernel
  have hagain : ntfscloneStep ntfscloneTwiceImage 0 ⟨1081, 1, false, false, false, [⟨0, 46, 2⟩]⟩
      = .ok (ntfscloneTwiceScan, some 1) := by rfl
  exact (((NtfscloneWalk.begin.stored hzero).stored hone).gap hgap rfl).stored hagain

theorem ntfscloneScan_ends_twice :
    ∃ r s', ntfscloneScan ntfscloneTwiceImage 1 1596 0 ntfscloneTwiceScan = some (r, s')
      ∧ NtfscloneScanned ntfscloneTwiceImage 1 r s' :=
  ntfscloneScan_ends ntfscloneTwice_open ntfscloneTwice_walk 1 0

theorem ntfscloneTwice_finish : ntfscloneStep ntfscloneTwiceImage 0 ntfscloneTwiceScan
    = .ok (ntfscloneFinishScan ntfscloneTwiceImage ntfscloneTwiceScan, none) := by rfl

theorem ntfsclone_map_twice :
    NtfscloneMapOk ntfscloneTwiceImage
        (ntfscloneFinishScan ntfscloneTwiceImage ntfscloneTwiceScan).extents
        [(0, 47), (1, 560), (1, 1082)] ↔
      Unshadowed NtfscloneExtent.lcn NtfscloneExtent.count NtfscloneExtent.off
        ntfscloneTwiceScan.extents :=
  ntfsclone_map_iff ntfscloneTwice_open ntfscloneTwice_walk ntfscloneTwice_finish rfl

/-- The table gives the older copy of cluster 1. -/
theorem ntfsclone_map_stale :
    ntfscloneOpen ntfscloneTwice = .ok ntfscloneTwiceImage
      ∧ NtfscloneWalk ntfscloneTwiceImage ntfscloneTwiceScan [(0, 47), (1, 560), (1, 1082)]
      ∧ ntfscloneStep ntfscloneTwiceImage 0 ntfscloneTwiceScan
        = .ok (ntfscloneFinishScan ntfscloneTwiceImage ntfscloneTwiceScan, none)
      ∧ ¬ NtfscloneMapOk ntfscloneTwiceImage
        (ntfscloneFinishScan ntfscloneTwiceImage ntfscloneTwiceScan).extents
        [(0, 47), (1, 560), (1, 1082)] := by
  refine ⟨ntfscloneTwice_open, ntfscloneTwice_walk, ntfscloneTwice_finish, fun h => ?_⟩
  exact absurd (h.2 1) (by decide)

end FsRover
