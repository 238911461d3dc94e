import FsRover.Lost.Termination

/-!
# The progress that is shown

`rover_lost_scan_progress` is asked between the calls of `rover_lost_scan_step`. It follows the
position of the first pass, which later passes go back behind.

## Main results

* `FsRover.roverLostScanProgress_mono` : it never goes back.
-/

namespace FsRover

variable {env : LostSearch}

variable (env) in
/-- The progress of a scan, also within a call. -/
def lostShown (s : LostScan) : ℕ := if s.done ∨ s.rescanning then env.size else min s.pos env.size

theorem lostShown_mono {s s' : LostScan} (hdone : s.done = true → s'.done = true)
    (hrescan : s.rescanning = true → s'.rescanning = true) (hpos : min s.pos env.size ≤ s'.pos) :
    lostShown env s ≤ lostShown env s' := by
  have hle : min s.pos env.size ≤ env.size := Nat.min_le_right _ _
  unfold lostShown
  split_ifs with h h'
  · exact le_rfl
  · exact absurd (h.imp hdone hrescan) h'
  · exact hle
  · exact le_min hpos hle

theorem LostScan.Frame.shown_le {s s' : LostScan} (h : s.Frame s') :
    lostShown env s ≤ lostShown env s' :=
  lostShown_mono (fun hs => h.done_eq.trans hs) (fun hs => h.rescanning_eq.trans hs)
    ((Nat.min_le_left _ _).trans h.pos_le)

theorem LostChunkActs.rescanning_eq {hits : LostHit → Prop} {entries : ℕ → ℕ → Prop}
    {s s' : LostScan} (h : LostChunkActs env hits entries s s') : s'.rescanning = s.rescanning := by
  refine Runs.relates (R := fun s s' : LostScan => s'.rescanning = s.rescanning) (fun _ => rfl)
    (fun _ _ _ hab hbc => hbc.trans hab) (fun a b hab => ?_) h
  cases hab with
  | act h => exact h.frame.rescanning_eq
  | _ => rfl

theorem LostRound.shown_le {s s' : LostScan} (hroom : env.Roomy) (hs : LostSound env s)
    (h : LostRound env s s') : lostShown env s ≤ lostShown env s' := by
  have hmin : min s.pos env.size ≤ s.pos := Nat.min_le_left _ _
  cases h with
  | finish | claimed => exact lostShown_mono id id hmin
  | ends => exact lostShown_mono (fun _ => rfl) id hmin
  | pass =>
    refine le_of_le_of_eq ?_ (if_pos (Or.inr rfl)).symm
    unfold lostShown
    split_ifs
    · exact le_rfl
    · exact Nat.min_le_right _ _
  | misaligned c _ _ hquick hc hle =>
    have hpos := hs.span.pos_le hroom hquick hs.hints hc hle
    exact lostShown_mono id id (by dsimp only; omega)
  | skipRange c r _ _ hquick hc hle _ _ hr =>
    have hpos := hs.span.pos_le hroom hquick hs.hints hc hle
    have hlt := (lostRangeAt_spec hr).2.2.2
    exact lostShown_mono id id (by dsimp only; omega)
  | visit c _ _ _ _ hquick hc hle _ _ _ _ hacts =>
    have hpos := hs.span.pos_le hroom hquick hs.hints hc hle
    refine le_trans ?_ (LostActs.frame hacts).shown_le
    exact lostShown_mono id id (by dsimp only; omega)
  | settle => exact lostShown_mono id id (Nat.min_le_right _ _)
  | chunk _ _ hdeep hpos =>
    obtain ⟨m, hacts, hm⟩ := @lostDeepChunk_acts env s
    have hnext := lt_lostDeepNext hroom hdeep hpos
    refine lostShown_mono (fun hdone => lostDeepChunk_frame s |>.done_eq.trans hdone)
      (fun hrescan => ?_) (by rw [lostDeepChunk_pos]; omega)
    rw [hm]
    exact (LostChunkActs.rescanning_eq hacts).trans hrescan
  | pending _ _ _ _ _ hacts | entry _ _ _ _ _ _ _ hacts =>
    exact le_trans (lostShown_mono id id hmin) (LostActs.frame hacts).shown_le

/-- Between calls the progress is at most the total, no call takes it back, and in the end it is the
total. -/
theorem roverLostScanProgress_mono (hroom : env.Roomy) {s s' : LostScan} (hs : LostCalls env s)
    {fuel budget ret : ℕ} {cb : ℕ → Bool}
    (hcall : roverLostScanStep env fuel cb s budget = some (ret, s')) :
    (roverLostScanProgress env s').1 ≤ (roverLostScanProgress env s').2
      ∧ min (roverLostScanProgress env s).1 env.size ≤ (roverLostScanProgress env s').1
      ∧ (ret = 0 → (roverLostScanProgress env s').1 = (roverLostScanProgress env s').2) := by
  have hmono : LostSound env s' ∧ lostShown env s ≤ lostShown env s' := by
    refine Runs.preserves (P := fun t => LostSound env t ∧ lostShown env s ≤ lostShown env t)
      (fun a b hab ha => ⟨ha.1.step hab, ha.2.trans ?_⟩) (roverLostScanStep_steps hcall).1
      ⟨hs.reach.sound, le_rfl⟩
    cases hab with
    | round h => exact h.shown_le hroom ha.1
    | clamp => exact lostShown_mono id id (Nat.min_le_right _ _)
  have hret := (roverLostScanStep_steps hcall).2
  have hpos : s'.pos ≤ env.size := by
    obtain ⟨m, -, hm⟩ := Option.map_eq_some_iff.mp hcall
    obtain ⟨-, rfl⟩ := Prod.mk.inj hm
    unfold lostClamp
    split_ifs with hend
    · exact le_rfl
    · exact not_lt.mp (not_or.mp hend).1
  have hshown : (roverLostScanProgress env s').1 = lostShown env s' := by
    rw [roverLostScanProgress, lostShown, Nat.min_eq_left hpos]
  have hbefore : min (roverLostScanProgress env s).1 env.size = lostShown env s := by
    rw [roverLostScanProgress, lostShown]
    split_ifs
    · exact Nat.min_self _
    · rfl
  refine ⟨?_, by rw [hbefore, hshown]; exact hmono.2, fun hzero => ?_⟩
  · rw [hshown, roverLostScanProgress, lostShown]
    split_ifs
    · exact le_rfl
    · exact Nat.min_le_right _ _
  · rw [roverLostScanProgress, if_pos (Or.inl ?_)]
    by_contra hdone
    rw [hret, if_neg hdone] at hzero
    cases hzero

theorem roverLostScanProgress_mono_truncated : ∃ fuel ret s',
    roverLostScanStep lostTruncatedImage fuel (fun _ => false)
      (roverLostScanBegin lostTruncatedImage) 1 = some (ret, s')
      ∧ (roverLostScanProgress lostTruncatedImage s').1
        ≤ (roverLostScanProgress lostTruncatedImage s').2 := by
  obtain ⟨fuel, ⟨ret, s'⟩, hcall⟩ := exists_roverLostScanStep lostTruncatedImage_roomy
    roverLostScanBegin_sound (fun _ => false) 1
  exact ⟨fuel, ret, s', hcall, (roverLostScanProgress_mono lostTruncatedImage_roomy .begin hcall).1⟩

end FsRover
