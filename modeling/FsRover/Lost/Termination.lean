import FsRover.Lost.Progress

/-!
# When a search ends

A call puts its position back to the device end when a round left it behind, so a call that ends
right after the round there starts where it started. A caller whose budgets stay that small calls
forever; every other search ends.

## Main definitions

* `FsRover.LostRun` : a sequence of calls.

## Main results

* `FsRover.exists_lostRun` : every call returns.
* `FsRover.roverLostScanStep_progress` : a call lowers the measure, or starts at the device end.
* `FsRover.lostScan_completes_iff` : when a search ends.
* `FsRover.lostTruncatedImage_never_completes` : a search that does not.
-/

namespace FsRover

variable {env : LostSearch}

/-! ### A call -/

variable (env) in
/-- What the termination argument knows of every scan of a search. -/
structure LostSound (s : LostScan) : Prop where
  hints : LostHints env s.hints
  span : LostSpan env s
  size_mem : env.size % env.sectorSize = 0 → env.size ∈ s.hints

theorem LostSound.step {s s' : LostScan} (hs : LostSound env s) (h : LostStep env s s') :
    LostSound env s' :=
  ⟨h.hints hs.hints, h.span hs.span, fun hmod => h.grows.hints (hs.size_mem hmod)⟩

theorem roverLostScanBegin_sound : LostSound env (roverLostScanBegin env) := by
  refine ⟨roverLostScanBegin_hints, ?_, fun hmod => LostReach.size_mem .refl hmod⟩
  obtain ⟨m, hacts, hm⟩ := @roverLostScanBegin_acts env
  have hspan := LostActs.span hacts ⟨Or.inl (Nat.zero_le _), fun k hk => absurd hk List.not_mem_nil⟩
  rw [hm]
  exact ⟨Or.inl (le_max_right _ _), hspan.skips⟩

theorem LostReach.sound {s : LostScan} (h : LostReach env s) : LostSound env s :=
  h.preserves roverLostScanBegin_sound fun _ _ hstep hs => hs.step hstep

theorem lostQuickVisit_ne_pass (cb : ℕ → Bool) (s : LostScan) (c : ℕ) :
    (lostQuickVisit env cb s c).2 ≠ .pass := by
  have hvisit : ∀ endOnly, (lostQuickVisit.visit env cb s c endOnly).2 ≠ .pass := by
    intro endOnly
    unfold lostQuickVisit.visit
    dsimp only
    split_ifs <;> simp
  unfold lostQuickVisit
  split_ifs
  · simp
  · split
    · split_ifs
      · simp
      · exact hvisit true
    · exact hvisit false

/-- A round that starts a queued range goes back to where that range begins. -/
theorem lostRound_pass {cb : ℕ → Bool} {s : LostScan} (h : (lostRound env cb s).2 = .pass) :
    ∃ k ∈ s.skips, (lostRound env cb s).1.pos = k.fromOff := by
  unfold lostRound at h ⊢
  split_ifs at h ⊢ with hrun hdeep
  · unfold lostFinishRound at h
    dsimp only at h
    split at h
    · split_ifs at h
    · split at h
      · cases h
      · split_ifs at h
  · unfold lostDeepRound at h
    split_ifs at h
  · unfold lostQuickRound at h ⊢
    dsimp only at h ⊢
    split_ifs at h ⊢ with hover
    · rcases lostNextPass_cases s with ⟨hp, -⟩ | ⟨i, k, hget, -, hp⟩
      · rw [hp] at h
        cases h
      · rw [hp]
        exact ⟨k, SortedSearch.mem_of_getElem? hget, rfl⟩
    · exact absurd h (lostQuickVisit_ne_pass _ _ _)

theorem lostReport_asks {cb : ℕ → Bool} {s : LostScan} {hit : LostHit}
    (h : (lostReport env cb s hit).2 = true) :
    s.found.length < (lostReport env cb s hit).1.found.length := by
  unfold lostReport at h ⊢
  dsimp only at h ⊢
  split_ifs at h ⊢
  rw [lostRecord_eq]
  have hlt : s.found.length < (lostAccept env s (lostEffectiveHit env hit)
      (lostEffectiveHit env hit).endAt).found.length := by
    simp [lostAccept, lostRemember]
  split_ifs
  · exact hlt
  · exact hlt.trans_le (@lostStepOver_acts _ (fun _ => False) (fun _ _ => False)
      _ _).frame.found_prefix.length_le

theorem lostReportAll_asks {cb : ℕ → Bool} {s : LostScan} {hs : List LostHit}
    (h : (lostReportAll env cb s hs).2 = true) :
    s.found.length < (lostReportAll env cb s hs).1.found.length := by
  induction hs generalizing s with
  | nil => cases h
  | cons a hs ih =>
    have hhead := (@lostReport_acts env (fun _ => True) (fun _ _ => True) cb s a
      trivial).frame.found_prefix.length_le
    have htail := (@lostReportAll_acts env (fun _ => True) (fun _ _ => True) cb
      (lostReport env cb s a).1 hs
      fun _ _ => trivial).frame.found_prefix.length_le
    rcases Bool.or_eq_true_iff.mp h with h | h
    · exact (lostReport_asks h).trans_le htail
    · exact hhead.trans_lt (ih h)

/-- The callback pauses the search after a new result only. -/
theorem lostRound_pause {cb : ℕ → Bool} {s : LostScan} (hrun : s.finishing = false)
    (h : (lostRound env cb s).2 = .pause) :
    s.found.length < (lostRound env cb s).1.found.length := by
  have hvisit : ∀ m c endOnly, m.found = s.found →
      (lostQuickVisit.visit env cb m c endOnly).2 = .pause →
      s.found.length < (lostQuickVisit.visit env cb m c endOnly).1.found.length := by
    intro m c endOnly hm h
    unfold lostQuickVisit.visit at h ⊢
    dsimp only at h ⊢
    have hcand := (@lostQuickCandidate_acts env (fun _ => True) _ m c endOnly
      fun _ _ _ => trivial).frame.found_prefix.length_le
    rw [← hm]
    refine lt_of_le_of_lt hcand (lostReportAll_asks ?_)
    split_ifs at h with hask
    exact hask
  unfold lostRound at h ⊢
  rw [if_neg (by simp [hrun])] at h ⊢
  split_ifs at h ⊢ with hdeep
  · unfold lostDeepRound at h
    split_ifs at h
  · unfold lostQuickRound at h ⊢
    dsimp only at h ⊢
    split_ifs at h ⊢ with hover
    · rcases lostNextPass_cases s with ⟨hp, -⟩ | ⟨i, k, -, -, hp⟩ <;> rw [hp] at h <;> cases h
    · unfold lostQuickVisit at h ⊢
      split_ifs at h ⊢
      split at h
      · split_ifs at h ⊢
        exact hvisit _ _ _ rfl h
      · exact hvisit _ _ _ rfl h

theorem exists_roverLostScanStep (hroom : env.Roomy) {s : LostScan} (hs : LostSound env s)
    (cb : ℕ → Bool) (budget : ℕ) :
    ∃ fuel out, roverLostScanStep env fuel cb s budget = some out := by
  have hwf : WellFounded (InvImage (· < ·)
      fun l : LostScan × ℕ => toLex (lostRank env l.1, env.size + 1 - l.1.pos)) :=
    InvImage.wf _ wellFounded_lt
  have hstep : ∀ l l', LostSound env l.1 → lostStepBody env cb budget l = .inl l' →
      LostSound env l'.1 ∧ InvImage (· < ·)
        (fun l : LostScan × ℕ => toLex (lostRank env l.1, env.size + 1 - l.1.pos)) l' l := by
    rintro ⟨a, stop⟩ ⟨b, stop'⟩ ha hb
    obtain ⟨hdone, -, rfl, -⟩ := lostStepBody_inl hb
    have hround := @lostRound_round env cb a hdone
    refine ⟨ha.step (.round hround), Prod.Lex.toLex_lt_toLex.mpr ?_⟩
    rcases hround.progress hroom ha.hints ha.span with hlt | ⟨hend, heq, -⟩
    · exact Or.inl hlt
    · obtain ⟨hpos, -⟩ := hend.round hroom ha.hints ha.size_mem hround
      have hlt := @size_lt_lostEndPos env
      have hat : a.pos = env.size := hend.pos
      refine Or.inr ⟨heq, ?_⟩
      dsimp only
      rw [hpos, hat]
      omega
  obtain ⟨fuel, m, hm⟩ := FuelLoop.exists_run (P := fun l => LostSound env l.1) hwf hstep
    (s := (s, lostStop s.pos budget)) hs
  unfold roverLostScanStep
  exact ⟨fuel, _, by rw [hm]; rfl⟩

theorem lostRank_clamp (s : LostScan) : lostRank env (lostClamp env s) = lostRank env s := by
  unfold lostClamp
  split_ifs with h
  · unfold lostRank lostLeft lostQueued
    dsimp only
    split_ifs with hdone
    · rfl
    · rfl
    · rw [Nat.sub_self, Nat.sub_eq_zero_of_le (by simp_all; omega)]
    · rw [Nat.sub_self, Nat.sub_eq_zero_of_le (by simp_all; omega)]
  · rfl

/-- The round before the next one of a call from `s`: the measure went down, none was made, or the
one at the device end was. -/
def LostOnWay (env : LostSearch) (s : LostScan) (stop : ℕ) (l : LostScan × ℕ) : Prop :=
  LostSound env l.1 ∧ (lostRank env l.1 < lostRank env s ∨ l = (s, stop)
    ∨ lostRank env l.1 = lostRank env s ∧ LostAtEnd env s ∧ l.2 = stop ∧ l.1.done = false
      ∧ l.1.finishing = false ∧ l.1.pos = lostEndPos env)

/-- A round on the way never raises the measure, and keeps it only at the device end. -/
theorem LostOnWay.round {s a : LostScan} {stop stop' : ℕ} (hroom : env.Roomy)
    (h : LostOnWay env s stop (a, stop')) {b : LostScan} (hround : LostRound env a b) :
    lostRank env b < lostRank env s
      ∨ a = s ∧ LostAtEnd env s ∧ lostRank env b = lostRank env s ∧ b.found = s.found := by
  obtain ⟨hsound, hlt | heq | ⟨hrank, -, -, -, -, hpos⟩⟩ := h
  · rcases hround.progress hroom hsound.hints hsound.span with h | ⟨-, h, -⟩
    · exact Or.inl (h.trans hlt)
    · exact Or.inl (h ▸ hlt)
  · obtain ⟨rfl, rfl⟩ := Prod.mk.inj heq
    exact (hround.progress hroom hsound.hints hsound.span).imp_right fun h => ⟨rfl, h⟩
  · rcases hround.progress hroom hsound.hints hsound.span with h | ⟨hend, -⟩
    · exact Or.inl (hrank ▸ h)
    · have hlt := @size_lt_lostEndPos env
      have hat : a.pos = env.size := hend.pos
      have hpos : a.pos = lostEndPos env := hpos
      omega

/-- A call lowers the measure, or starts at the device end and ends behind it. -/
theorem roverLostScanStep_progress (hroom : env.Roomy) {s s' : LostScan} (hs : LostSound env s)
    (hdone : s.done = false) {cb : ℕ → Bool} {fuel budget ret : ℕ}
    (hstop : s.pos < lostStop s.pos budget)
    (h : roverLostScanStep env fuel cb s budget = some (ret, s')) :
    lostRank env s' < lostRank env s
      ∨ LostAtEnd env s ∧ lostStop env.size budget ≤ lostEndPos env
        ∧ lostRank env s' = lostRank env s := by
  unfold roverLostScanStep at h
  obtain ⟨m, hm, hret⟩ := Option.map_eq_some_iff.mp h
  obtain ⟨-, rfl⟩ := Prod.mk.inj hret
  rw [lostRank_clamp]
  refine FuelLoop.run_invariant (P := LostOnWay env s (lostStop s.pos budget))
    (Q := fun m => lostRank env m < lostRank env s ∨ LostAtEnd env s
      ∧ lostStop env.size budget ≤ lostEndPos env ∧ lostRank env m = lostRank env s)
    ?_ ?_ ⟨hs, Or.inr (Or.inl rfl)⟩ hm
  · rintro ⟨a, stop⟩ ⟨b, stop'⟩ ha hb
    obtain ⟨hadone, -, rfl, hexit⟩ := lostStepBody_inl hb
    have hround := @lostRound_round env cb a hadone
    refine ⟨ha.1.step (.round hround), ?_⟩
    rcases ha.round hroom hround with hlt | ⟨rfl, hend, hrank, -⟩
    · exact Or.inl hlt
    · obtain ⟨hpos, hbdone, hbrun, -⟩ := hend.round hroom hs.hints hs.size_mem hround
      refine Or.inr (Or.inr ⟨hrank, hend, ?_, hbdone, hbrun, hpos⟩)
      have hstop' : stop = lostStop a.pos budget := by
        obtain ⟨-, hlt | heq | ⟨-, -, heq, -⟩⟩ := ha
        · exact absurd hlt (lt_irrefl _)
        · exact (Prod.mk.inj heq).2
        · exact heq
      rcases hexit with ⟨-, rfl⟩ | ⟨hpass, -⟩
      · exact hstop'
      · obtain ⟨k, hk, hkpos⟩ := lostRound_pass hpass
        have hkle := hs.span.skips k hk
        have hlt := @size_lt_lostEndPos env
        omega
  · rintro ⟨a, stop⟩ b ha hb
    rcases lostStepBody_inr hb with ⟨hadone, rfl⟩ | ⟨-, -, hle, rfl⟩ | ⟨hadone, -, rfl, hpause⟩
    · obtain ⟨-, hlt | heq | ⟨-, -, -, hadone', -⟩⟩ := ha
      · exact Or.inl hlt
      · obtain ⟨rfl, rfl⟩ := Prod.mk.inj heq
        rw [hdone] at hadone
        cases hadone
      · rw [hadone'] at hadone
        cases hadone
    · obtain ⟨-, hlt | heq | ⟨hrank, hend, heq, -, -, hpos⟩⟩ := ha
      · exact Or.inl hlt
      · obtain ⟨rfl, rfl⟩ := Prod.mk.inj heq
        omega
      · dsimp only at hrank heq hpos
        subst heq
        rw [hend.pos, hpos] at hle
        exact Or.inr ⟨hend, hle, hrank⟩
    · have hround := @lostRound_round env cb a hadone
      rcases ha.round hroom hround with hlt | ⟨rfl, hend, -, hfound⟩
      · exact Or.inl hlt
      · have hgrown := lostRound_pause hend.finishing hpause
        rw [hfound] at hgrown
        exact absurd hgrown (lt_irrefl _)

/-- A call that starts at the device end and whose budget does not reach behind the next round
starts there again. -/
theorem LostAtEnd.call (hroom : env.Roomy) {s s' : LostScan} (hs : LostSound env s)
    (hend : LostAtEnd env s) {cb : ℕ → Bool} {fuel budget ret : ℕ}
    (hstop : s.pos < lostStop s.pos budget) (hle : lostStop env.size budget ≤ lostEndPos env)
    (h : roverLostScanStep env fuel cb s budget = some (ret, s')) :
    LostAtEnd env s' ∧ ret = 1 := by
  have hround := @lostRound_round env cb s hend.done
  obtain ⟨hpos, hdone, hrun, hlimit⟩ := hend.round hroom hs.hints hs.size_mem hround
  have hbehind := @size_lt_lostEndPos env
  unfold roverLostScanStep at h
  obtain ⟨m, hm, hret⟩ := Option.map_eq_some_iff.mp h
  obtain ⟨rfl, rfl⟩ := Prod.mk.inj hret
  have hmeq : m = (lostRound env cb s).1 := by
    refine FuelLoop.run_invariant (P := fun l => l = (s, lostStop s.pos budget)
        ∨ l = ((lostRound env cb s).1, lostStop s.pos budget))
      (Q := fun m => m = (lostRound env cb s).1) ?_ ?_ (Or.inl rfl) hm
    · rintro ⟨a, stop⟩ ⟨b, stop'⟩ ha hb
      obtain ⟨hadone, hgo, rfl, hexit⟩ := lostStepBody_inl hb
      rcases ha with ha | ha <;> obtain ⟨rfl, rfl⟩ := Prod.mk.inj ha
      · rcases hexit with ⟨-, rfl⟩ | ⟨hpass, -⟩
        · exact Or.inr rfl
        · obtain ⟨k, hk, hkpos⟩ := lostRound_pass hpass
          have hkle := hs.span.skips k hk
          omega
      · rw [hrun, hpos, hend.pos] at hgo
        rcases hgo with hgo | hgo
        · cases hgo
        · omega
    · rintro ⟨a, stop⟩ b ha hb
      rcases ha with ha | ha <;> obtain ⟨rfl, rfl⟩ := Prod.mk.inj ha
      · rcases lostStepBody_inr hb with ⟨hadone, -⟩ | ⟨-, -, hle, -⟩ | ⟨-, -, rfl, -⟩
        · rw [hend.done] at hadone
          cases hadone
        · omega
        · rfl
      · rcases lostStepBody_inr hb with ⟨-, rfl⟩ | ⟨-, -, -, rfl⟩ | ⟨-, hgo, -, -⟩
        · rfl
        · rfl
        · rw [hrun, hpos, hend.pos] at hgo
          rcases hgo with hgo | hgo
          · cases hgo
          · omega
  rw [hmeq]
  unfold lostClamp
  rw [if_pos (Or.inl (by omega)), if_neg (by simp [hdone])]
  exact ⟨⟨hdone, hrun, rfl, fun hquick => by rw [hlimit]; exact hend.quick hquick⟩, rfl⟩

/-! ### A sequence of calls -/

variable (env) in
/-- Calls of `rover_lost_scan_step` on a scan, with the budget and the callback of each: the scan
before every call and the value it returns. -/
structure LostRun (cb : ℕ → ℕ → Bool) (budget : ℕ → ℕ) (st : ℕ → LostScan) (ret : ℕ → ℕ) :
    Prop where
  begin : st 0 = roverLostScanBegin env
  call : ∀ i, ∃ fuel, roverLostScanStep env fuel (cb i) (st i) (budget i) = some (ret i, st (i + 1))

section Run

variable {cb : ℕ → ℕ → Bool} {budget : ℕ → ℕ} {st : ℕ → LostScan} {ret : ℕ → ℕ}

theorem LostRun.calls (h : LostRun env cb budget st ret) (i : ℕ) : LostCalls env (st i) := by
  induction i with
  | zero =>
    rw [h.begin]
    exact .begin
  | succ i ih =>
    obtain ⟨fuel, hcall⟩ := h.call i
    exact .step ih hcall

theorem LostRun.sound (h : LostRun env cb budget st ret) (i : ℕ) : LostSound env (st i) :=
  (h.calls i).reach.sound

/-- Between calls the position is on the device or where the search began. -/
theorem LostCalls.pos_le {s : LostScan} (h : LostCalls env s) :
    s.pos ≤ max env.size env.origin := by
  cases h with
  | begin => exact le_max_right _ _
  | step _ hcall =>
    unfold roverLostScanStep at hcall
    obtain ⟨m, -, hret⟩ := Option.map_eq_some_iff.mp hcall
    obtain ⟨-, rfl⟩ := Prod.mk.inj hret
    unfold lostClamp
    split_ifs with hend
    · exact le_max_left _ _
    · exact le_max_of_le_left (not_lt.mp (not_or.mp hend).1)

theorem LostCalls.lt_lostStop {s : LostScan} (h : LostCalls env s) {b : ℕ} (hpos : 0 < b)
    (hlt : b < 2 ^ 64) : s.pos < lostStop s.pos b := by
  have hle := h.pos_le
  have hsize := env.size_le
  have horigin := env.origin_le
  have hpow : (2 : ℕ) ^ 15 < 2 ^ 64 - 1 := by decide
  have hmax : s.pos < 2 ^ 64 - 1 := by omega
  unfold lostStop
  dsimp only
  split_ifs with hstop
  · exact hmax
  · obtain ⟨-, hge⟩ := not_or.mp hstop
    unfold u64 at hge ⊢
    omega

theorem roverLostScanStep_unique {s : LostScan} {cb : ℕ → Bool} {fuel fuel' budget : ℕ}
    {out out' : ℕ × LostScan} (h : roverLostScanStep env fuel cb s budget = some out)
    (h' : roverLostScanStep env fuel' cb s budget = some out') : out = out' := by
  unfold roverLostScanStep at h h'
  obtain ⟨m, hm, rfl⟩ := Option.map_eq_some_iff.mp h
  obtain ⟨m', hm', rfl⟩ := Option.map_eq_some_iff.mp h'
  rw [FuelLoop.run_unique hm hm']

theorem LostRun.ret_eq (h : LostRun env cb budget st ret) (i : ℕ) :
    ret i = if (st (i + 1)).done then 0 else 1 := by
  obtain ⟨fuel, hcall⟩ := h.call i
  exact (roverLostScanStep_steps hcall).2

theorem LostRun.done_mono (h : LostRun env cb budget st ret) {i j : ℕ} (hij : i ≤ j)
    (hdone : (st i).done = true) : (st j).done = true := by
  induction j, hij using Nat.le_induction with
  | base => exact hdone
  | succ j _ ih =>
    obtain ⟨fuel, hcall⟩ := h.call j
    unfold roverLostScanStep at hcall
    obtain ⟨m, hm, hret⟩ := Option.map_eq_some_iff.mp hcall
    rw [← (Prod.mk.inj hret).2]
    have hmdone : m.done = true := by
      refine FuelLoop.run_invariant (P := fun l => l.1.done = true)
        (Q := fun m => m.done = true) ?_ ?_ ih hm
      · rintro ⟨a, stop⟩ ⟨b, stop'⟩ ha hb
        obtain ⟨hadone, -⟩ := lostStepBody_inl hb
        exact absurd ha (by simp [hadone])
      · rintro ⟨a, stop⟩ b ha hb
        rcases lostStepBody_inr hb with ⟨hadone, rfl⟩ | ⟨hadone, -⟩ | ⟨hadone, -⟩
        · exact ha
        · exact absurd ha (by simp [hadone])
        · exact absurd ha (by simp [hadone])
    unfold lostClamp
    split_ifs <;> exact hmdone

/-- Every search is a run: no call fails to return. -/
theorem exists_lostRun (hroom : env.Roomy) (cb : ℕ → ℕ → Bool) (budget : ℕ → ℕ) :
    ∃ st ret, LostRun env cb budget st ret := by
  have hcall : ∀ i (s : {s // LostCalls env s}), ∃ out : ℕ × {s // LostCalls env s},
      ∃ fuel, roverLostScanStep env fuel (cb i) s.1 (budget i) = some (out.1, out.2.1) := by
    rintro i ⟨s, hs⟩
    obtain ⟨fuel, ⟨r, s'⟩, hout⟩ := exists_roverLostScanStep hroom hs.reach.sound (cb i) (budget i)
    exact ⟨(r, ⟨s', hs.step hout⟩), fuel, hout⟩
  choose next hnext using hcall
  let st : ℕ → {s // LostCalls env s} := fun n =>
    Nat.rec ⟨roverLostScanBegin env, .begin⟩ (fun i s => (next i s).2) n
  exact ⟨fun n => (st n).1, fun n => (next n (st n)).1, rfl, fun i => hnext i (st i)⟩

/-- From the device end on, budgets that do not reach behind the round there keep the search
going. -/
theorem LostRun.stuck (hroom : env.Roomy) (hbudget : ∀ i, 0 < budget i ∧ budget i < 2 ^ 64)
    (h : LostRun env cb budget st ret) {i j : ℕ} (hij : i ≤ j) (hend : LostAtEnd env (st i))
    (hsmall : ∀ j, i ≤ j → lostStop env.size (budget j) ≤ lostEndPos env) :
    LostAtEnd env (st j) := by
  induction j, hij using Nat.le_induction with
  | base => exact hend
  | succ j hij ih =>
    obtain ⟨fuel, hcall⟩ := h.call j
    obtain ⟨hpos, hlt⟩ := hbudget j
    exact (ih.call hroom (h.sound j) ((h.calls j).lt_lostStop hpos hlt) (hsmall j hij) hcall).1

/-- A search ends unless, once at the device end, every later budget is too small to get behind
it. -/
theorem LostRun.completes_iff (hroom : env.Roomy)
    (hbudget : ∀ i, 0 < budget i ∧ budget i < 2 ^ 64) (h : LostRun env cb budget st ret) :
    (∃ n, ret n ≠ 1) ↔
      ∀ i, LostAtEnd env (st i) → ∃ j, i ≤ j ∧ lostEndPos env < lostStop env.size (budget j) := by
  constructor
  · rintro ⟨n, hn⟩ i hend
    by_contra hsmall
    simp only [not_exists, not_and, not_lt] at hsmall
    have hdone : (st (n + 1)).done = true := by
      by_contra hnot
      rw [h.ret_eq, if_neg hnot] at hn
      exact hn rfl
    have hlater := h.done_mono (Nat.le_max_right i (n + 1)) hdone
    have hstuck := h.stuck hroom hbudget (Nat.le_max_left i (n + 1)) hend hsmall
    rw [hstuck.done] at hlater
    cases hlater
  · intro hreach
    by_contra hnever
    simp only [not_exists, not_not] at hnever
    have hdone : ∀ i, (st i).done = false := by
      intro i
      by_contra hdone
      have hlater := h.done_mono (Nat.le_succ i) (by simpa using hdone)
      have hret := h.ret_eq i
      rw [hnever i, if_pos hlater] at hret
      cases hret
    have hprogress : ∀ i, lostRank env (st (i + 1)) < lostRank env (st i)
        ∨ LostAtEnd env (st i) ∧ lostStop env.size (budget i) ≤ lostEndPos env
          ∧ lostRank env (st (i + 1)) = lostRank env (st i) := by
      intro i
      obtain ⟨fuel, hcall⟩ := h.call i
      obtain ⟨hpos, hlt⟩ := hbudget i
      exact roverLostScanStep_progress hroom (h.sound i) (hdone i)
        ((h.calls i).lt_lostStop hpos hlt) hcall
    obtain ⟨n, hn⟩ := Runs.exists_constant_from (fun i => lostRank env (st i)) fun i =>
      (hprogress i).elim le_of_lt fun h => h.2.2.le
    have hsmall : ∀ i, n ≤ i →
        LostAtEnd env (st i) ∧ lostStop env.size (budget i) ≤ lostEndPos env := by
      intro i hi
      rcases hprogress i with hlt | ⟨hend, hle, -⟩
      · exact absurd (hn i hi) hlt.ne
      · exact ⟨hend, hle⟩
    obtain ⟨j, hj, hlt⟩ := hreach n (hsmall n le_rfl).1
    exact absurd (hsmall j hj).2 (not_le.mpr hlt)

end Run

/-- A search whose offsets have room returns from every call, and ends unless, once at the device
end, every later budget is too small to get behind it. -/
theorem lostScan_completes_iff (env : LostSearch) (hroom : env.Roomy) (cb : ℕ → ℕ → Bool)
    (budget : ℕ → ℕ) (hbudget : ∀ i, 0 < budget i ∧ budget i < 2 ^ 64) :
    (∃ st ret, LostRun env cb budget st ret)
      ∧ ∀ st ret, LostRun env cb budget st ret →
        ((∃ n, ret n ≠ 1) ↔ ∀ i, LostAtEnd env (st i) →
          ∃ j, i ≤ j ∧ lostEndPos env < lostStop env.size (budget j)) :=
  ⟨exists_lostRun hroom cb budget, fun _ _ h => h.completes_iff hroom hbudget⟩

/-- A truncated image: a readable partition of 512 MiB begins at 16 KiB of a disk of 32 KiB. -/
def lostTruncatedImage : LostSearch :=
  .ofImage 64 0 (.ofFields []) [⟨32, 2 ^ 20, true⟩] false

theorem lostTruncatedImage_roomy : lostTruncatedImage.Roomy := by
  have hsize : lostTruncatedImage.size = 32768 := by decide
  have hranges : lostTruncatedImage.ranges = [⟨16384, 16384 + 2 ^ 29, true⟩] := by decide
  unfold LostSearch.Roomy
  rw [if_neg (by decide), hsize, hranges]
  refine ⟨fun x hx => reaches_of_le ?_, fun r hr _ _ => reaches_of_le ?_⟩
  · exact le_trans (Nat.add_le_add_right hx _) (by decide)
  · rw [List.mem_singleton.mp hr]
    decide

/-- Budgets of 1 GiB get behind the partition. -/
theorem lostTruncatedImage_completes :
    ∃ st ret, LostRun lostTruncatedImage (fun _ _ => false) (fun _ => 2 ^ 30) st ret
      ∧ ∃ n, ret n ≠ 1 := by
  obtain ⟨⟨st, ret, hrun⟩, hiff⟩ := lostScan_completes_iff lostTruncatedImage
    lostTruncatedImage_roomy (fun _ _ => false) (fun _ => 2 ^ 30) fun _ => by decide
  exact ⟨st, ret, hrun, (hiff st ret hrun).mpr fun i _ => ⟨i, le_rfl, by decide⟩⟩

/-- Budgets of 256 MiB do not: the search of the truncated image never ends. -/
theorem lostTruncatedImage_never_completes :
    ¬ ∀ (env : LostSearch) (cb : ℕ → ℕ → Bool) (budget : ℕ → ℕ) (st : ℕ → LostScan)
      (ret : ℕ → ℕ), (∀ i, 0 < budget i ∧ budget i < 2 ^ 64) → LostRun env cb budget st ret →
      ∃ n, ret n ≠ 1 := by
  intro hclaim
  obtain ⟨st, ret, hrun⟩ := exists_lostRun lostTruncatedImage_roomy (fun _ _ => false)
    fun _ => 2 ^ 28
  have hbudget : ∀ _ : ℕ, 0 < 2 ^ 28 ∧ 2 ^ 28 < 2 ^ 64 := fun _ => by decide
  have hfirst : (roverLostScanStep lostTruncatedImage 10 (fun _ => false)
      (roverLostScanBegin lostTruncatedImage) (2 ^ 28)).map
      (fun r => (r.2.pos, r.2.limit, r.2.done, r.2.finishing))
        = some (32768, 2 ^ 64 - 1, false, false) := by
    decide
  obtain ⟨⟨r, s'⟩, hs', hstate⟩ := Option.map_eq_some_iff.mp hfirst
  obtain ⟨fuel, hcall⟩ := hrun.call 0
  rw [hrun.begin] at hcall
  obtain ⟨-, hst⟩ := Prod.mk.inj (roverLostScanStep_unique hs' hcall)
  simp only [Prod.mk.injEq] at hstate
  obtain ⟨hpos, hlimit, hdone, hfinishing⟩ := hstate
  have hend : LostAtEnd lostTruncatedImage (st 1) := by
    rw [← hst]
    refine ⟨hdone, hfinishing, hpos.trans (by decide), fun _ => ⟨?_, by decide⟩⟩
    rw [hlimit]
    decide
  obtain ⟨n, hn⟩ := hclaim _ _ _ st ret hbudget hrun
  have hstuck := hrun.stuck lostTruncatedImage_roomy hbudget (Nat.succ_le_succ (Nat.zero_le n)) hend
    fun _ _ => by decide
  rw [hrun.ret_eq, hstuck.done] at hn
  exact hn rfl

end FsRover
