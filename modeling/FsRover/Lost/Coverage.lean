import FsRover.Lost.Candidates

/-!
# What a quick search has looked at

A candidate is accounted for when it was examined, lies inside a readable partition, lies in a
range stepped over that is not searched again yet, or is still ahead. Every round keeps candidates
accounted for, and a search that is over has nothing ahead and nothing queued: what was not
examined was stepped over for good. A hint is accounted for from the moment it is recorded, if it
lies ahead of the pass that records it.

## Main definitions

* `FsRover.LostCovered` : a candidate is accounted for.
* `FsRover.LostQuiet` : nothing starts in a range.
* `FsRover.LostPassed` : the ranges stepped over for good hold no start.

## Main results

* `FsRover.LostRound.covered` : every round keeps candidates accounted for.
* `FsRover.lostScan_covers_grid` : a search that is over has covered its candidates.
* `FsRover.lostScan_covers_hints` : and its hints, when each was recorded ahead of its pass.
-/

namespace FsRover

variable {env : LostSearch} {hits : LostHit → Prop} {entries : ℕ → ℕ → Prop}

variable (env) in
/-- `x` lies strictly inside a readable partition. -/
def LostInside (x : ℕ) : Prop := ∃ r ∈ env.ranges, r.readable = true ∧ r.start < x ∧ x < r.endAt

/-- `x` lies in a range that was stepped over and is not searched again. -/
def LostStepped (skips : List LostSkip) (x : ℕ) : Prop :=
  ∃ k ∈ skips, k.state ≠ .done ∧ k.fromOff ≤ x ∧ x < k.toOff

/-- The present pass will come to `x`. -/
def LostAhead (s : LostScan) (x : ℕ) : Prop :=
  s.finishing = false ∧ s.pos ≤ x ∧ x < s.limit

variable (env) in
/-- The candidate `x` is accounted for. -/
def LostCovered (s : LostScan) (x : ℕ) : Prop :=
  .candidate x ∈ s.trace ∨ LostInside env x ∨ LostStepped s.skips x ∨ LostAhead s x

/-- `lost_next` does not pass `x`. -/
def LostCandidate (env : LostSearch) (s : LostScan) (x : ℕ) : Prop :=
  x ≤ env.size ∧ (LostGrid env x ∨ x ∈ s.hints)

theorem LostCandidate.next_le {s : LostScan} {x : ℕ} (hx : LostCandidate env s x)
    (hh : LostHints env s.hints) (hpos : s.pos ≤ x) : lostNext env s.hints s.pos ≤ x :=
  hx.2.elim (fun hgrid => lostNext_le_grid s.hints hgrid hpos hx.1)
    fun hmem => lostNext_le_hint hh hmem hpos

theorem LostCandidate.grows {s s' : LostScan} {x : ℕ} (hx : LostCandidate env s x)
    (h : s.Grows s') : LostCandidate env s' x :=
  ⟨hx.1, hx.2.imp_right fun hmem => h.hints hmem⟩

/-! ### Changes -/

theorem LostStepped.conflict {skips : List LostSkip} {x : ℕ} (h : LostStepped skips x)
    (start : ℕ) : LostStepped (skips.map (·.conflict start)) x := by
  obtain ⟨k, hk, hstate, hfrom, hto⟩ := h
  refine ⟨k.conflict start, List.mem_map_of_mem hk, ?_⟩
  unfold LostSkip.conflict
  split_ifs
  · exact ⟨by simp, hfrom, hto⟩
  · exact ⟨hstate, hfrom, hto⟩

theorem LostStepped.append {skips : List LostSkip} {x : ℕ} (h : LostStepped skips x)
    (k : LostSkip) : LostStepped (skips ++ [k]) x :=
  let ⟨k', hk', hrest⟩ := h
  ⟨k', List.mem_append_left _ hk', hrest⟩

theorem LostAct.covered {s s' : LostScan} (h : LostAct env hits entries s s') {x : ℕ}
    (hx : LostCovered env s x) : LostCovered env s' x := by
  have htrace := h.frame.trace_suffix
  rcases hx with hx | hx | hx | ⟨hrun, hpos, hlt⟩
  · exact Or.inl (htrace.mem hx)
  · exact Or.inr (Or.inl hx)
  · refine Or.inr (Or.inr (Or.inl ?_))
    cases h with
    | hint => exact hx
    | table start => exact hx.conflict start
    | jump => exact hx.append _
    | record hit => exact hx.conflict _
  · cases h with
    | hint => exact Or.inr (Or.inr (Or.inr ⟨hrun, hpos, hlt⟩))
    | table => exact Or.inr (Or.inr (Or.inr ⟨hrun, hpos, hlt⟩))
    | jump endAt =>
      -- what the jump passes is in the range it leaves behind
      rcases Nat.lt_or_ge x endAt with hbefore | hafter
      · refine Or.inr (Or.inr (Or.inl ⟨⟨s.pos, endAt, .passed⟩, ?_, by simp, hpos, hbefore⟩))
        exact List.mem_append_right _ (List.mem_singleton_self _)
      · exact Or.inr (Or.inr (Or.inr ⟨hrun, hafter, hlt⟩))
    | record => exact Or.inr (Or.inr (Or.inr ⟨hrun, hpos, hlt⟩))

theorem LostActs.covered {s s' : LostScan} (h : LostActs env hits entries s s') {x : ℕ}
    (hx : LostCovered env s x) : LostCovered env s' x :=
  Runs.preserves (P := fun s => LostCovered env s x) (fun _ _ hab => hab.covered) h hx

/-! ### Rounds -/

theorem LostCandidate.not_ahead {s : LostScan} {x : ℕ} (hx : LostCandidate env s x)
    (hh : LostHints env s.hints)
    (hover : env.size < lostNext env s.hints s.pos ∨ s.limit ≤ lostNext env s.hints s.pos) :
    ¬ LostAhead s x := by
  rintro ⟨-, hpos, hlt⟩
  have hle := hx.next_le hh hpos
  have hsize := hx.1
  omega

/-- Moving on to `y` covers what lies before it. -/
theorem LostCovered.move {s m : LostScan} {x : ℕ} (hx : LostCovered env s x)
    (htrace : s.trace <:+ m.trace) (hskips : m.skips = s.skips)
    (hahead : LostAhead s x → LostCovered env m x) : LostCovered env m x := by
  rcases hx with hx | hx | hx | hx
  · exact Or.inl (htrace.mem hx)
  · exact Or.inr (Or.inl hx)
  · exact Or.inr (Or.inr (Or.inl (hskips ▸ hx)))
  · exact hahead hx

theorem LostCovered.visit {s : LostScan} {c x : ℕ} (hh : LostHints env s.hints)
    (hrun : s.finishing = false) (hc : c = lostNext env s.hints s.pos)
    (hcand : LostCandidate env s x) (hx : LostCovered env s x) :
    LostCovered env { s with pos := c + 1, trace := .candidate c :: s.trace } x := by
  refine hx.move (List.suffix_cons _ _) rfl fun ⟨_, hpos, hlt⟩ => ?_
  have hle := hc ▸ hcand.next_le hh hpos
  rcases Nat.lt_or_eq_of_le hle with hbehind | rfl
  · exact Or.inr (Or.inr (Or.inr ⟨hrun, hbehind, hlt⟩))
  · exact Or.inl List.mem_cons_self

/-- Every round of the quick search keeps candidates accounted for. -/
theorem LostRound.covered {s s' : LostScan} (hquick : env.deep = false)
    (hh : LostHints env s.hints) (hpending : s.pending = []) (h : LostRound env s s') {x : ℕ}
    (hcand : LostCandidate env s x) (hx : LostCovered env s x) : LostCovered env s' x := by
  cases h with
  | finish _ _ _ hover =>
    exact hx.move List.suffix_rfl rfl fun hahead =>
      absurd hahead (hcand.not_ahead hh hover)
  | pass i k _ hrun _ hover hget hqueued =>
    rcases hx with hx | hx | ⟨k', hk', hstate, hfrom, hto⟩ | hx
    · exact Or.inl hx
    · exact Or.inr (Or.inl hx)
    · -- the range that is searched again is ahead, the others stay
      obtain ⟨j, hj⟩ := List.mem_iff_getElem?.mp hk'
      by_cases hij : i = j
      · subst hij
        obtain rfl := Option.some.inj (hget.symm.trans hj)
        exact Or.inr (Or.inr (Or.inr ⟨hrun, hfrom, hto⟩))
      · refine Or.inr (Or.inr (Or.inl ⟨k', ?_, hstate, hfrom, hto⟩))
        refine List.mem_iff_getElem?.mpr ⟨j, ?_⟩
        dsimp only
        rw [List.getElem?_set_ne hij, hj]
    · exact absurd hx (hcand.not_ahead hh hover)
  | misaligned c _ _ _ hc hle _ hmod => exact absurd (hc ▸ lostNext_mod hh (hc ▸ hle)) hmod
  | skipRange c r _ hrun _ hc _ _ _ hr hne =>
    refine hx.move List.suffix_rfl rfl fun ⟨_, hpos, hlt⟩ => ?_
    have hle := hc ▸ hcand.next_le hh hpos
    obtain ⟨hmem, hread, hstart, -⟩ := lostRangeAt_spec hr
    rcases Nat.lt_or_ge x r.endAt with hbefore | hafter
    · exact Or.inr (Or.inl ⟨r, hmem, hread, by omega, hbefore⟩)
    · exact Or.inr (Or.inr (Or.inr ⟨hrun, hafter, hlt⟩))
  | visit c _ _ _ hrun _ hc _ _ _ _ _ hacts =>
    exact LostActs.covered hacts (hx.visit hh hrun hc hcand)
  | settle _ _ hdeep => rw [hquick] at hdeep; cases hdeep
  | chunk _ _ hdeep => rw [hquick] at hdeep; cases hdeep
  | pending hit _ _ _ hget => rw [hpending] at hget; cases hget
  | claimed => exact hx
  | entry t _ _ hrun _ _ _ hacts => exact LostActs.covered hacts hx
  | ends => exact hx

theorem LostStep.covered {s s' : LostScan} (hquick : env.deep = false)
    (hh : LostHints env s.hints) (hpending : s.pending = [])
    (hdone : s.done = true → s.finishing = true) (h : LostStep env s s') {x : ℕ}
    (hcand : LostCandidate env s x) (hx : LostCovered env s x) : LostCovered env s' x := by
  cases h with
  | round h => exact h.covered hquick hh hpending hcand hx
  | clamp hend =>
    refine hx.move List.suffix_rfl rfl fun ⟨hrun, hpos, hlt⟩ => ?_
    have hle := hcand.1
    rcases hend with hend | hend
    · omega
    · rw [hdone hend] at hrun
      cases hrun

/-! ### Ranges stepped over for good -/

/-- A result, a table entry or an unreadable partition starts at `x`. -/
def LostStart (env : LostSearch) (s : LostScan) (x : ℕ) : Prop :=
  (∃ t ∈ s.tables, t.start = x) ∨ (∃ r ∈ env.ranges, r.readable = false ∧ r.start = x)
    ∨ ∃ f ∈ s.found, f.start = x

/-- Nothing starts in `[lo, hi)`. -/
def LostQuiet (env : LostSearch) (s : LostScan) (lo hi : ℕ) : Prop :=
  ∀ x, LostStart env s x → ¬ (lo ≤ x ∧ x < hi)

theorem lostQuiet_of_evidence {s : LostScan} {lo hi : ℕ} (h : lostEvidence env s lo hi = false) :
    LostQuiet env s lo hi := by
  unfold lostEvidence at h
  simp only [Bool.or_eq_false_iff, List.any_eq_false, Bool.and_eq_true, decide_eq_true_eq,
    Bool.not_eq_true'] at h
  obtain ⟨⟨htables, hranges⟩, hfound⟩ := h
  rintro x (⟨t, ht, rfl⟩ | ⟨r, hr, hread, rfl⟩ | ⟨f, hf, rfl⟩)
  · exact htables t ht
  · exact fun hin => hranges r hr ⟨⟨hread, hin.1⟩, hin.2⟩
  · exact hfound f hf

/-- A range that `lost_conflict` leaves stepped over does not hold the start. -/
theorem lostConflict_passed {skips : List LostSkip} {start : ℕ} {k : LostSkip}
    (hk : k ∈ skips.map (·.conflict start)) (hstate : k.state = .passed) :
    k ∈ skips ∧ ¬ (k.fromOff ≤ start ∧ start < k.toOff) := by
  obtain ⟨k₀, hk₀, rfl⟩ := List.mem_map.mp hk
  unfold LostSkip.conflict at hstate ⊢
  split_ifs at hstate ⊢ with hin
  · exact ⟨hk₀, fun h => hin ⟨hstate, h⟩⟩

/-- A range that `lost_conflict` leaves queued was queued or holds the start. -/
theorem lostConflict_queued {skips : List LostSkip} {start : ℕ} {k : LostSkip}
    (hk : k ∈ skips.map (·.conflict start)) (hstate : k.state = .queued) :
    k ∈ skips ∨ ∃ k₀ ∈ skips, k₀.state = .passed ∧ k₀.fromOff ≤ start ∧ start < k₀.toOff := by
  obtain ⟨k₀, hk₀, rfl⟩ := List.mem_map.mp hk
  unfold LostSkip.conflict at hstate ⊢
  split_ifs at hstate ⊢ with hin
  · exact Or.inr ⟨k₀, hk₀, hin⟩
  · exact Or.inl hk₀

/-- What a quick search keeps true of the ranges it stepped over. -/
structure LostPassed (env : LostSearch) (s : LostScan) : Prop where
  quiet : ∀ k ∈ s.skips, k.state = .passed → LostQuiet env s k.fromOff k.toOff
  queued : s.finishing = true → ∀ k ∈ s.skips, k.state ≠ .queued
  finishing : s.done = true → s.finishing = true
  pending : s.pending = []

theorem LostAct.start {s s' : LostScan} (h : LostAct env hits entries s s') {x : ℕ}
    (hx : LostStart env s x) : LostStart env s' x := by
  cases h with
  | hint => exact hx
  | table =>
    exact hx.imp_left fun ⟨t, ht, heq⟩ => ⟨t, List.mem_append_left _ ht, heq⟩
  | jump => exact hx
  | record hit =>
    refine hx.imp ?_ (Or.imp_right ?_)
    · rintro ⟨t, ht, rfl⟩
      refine ⟨_, List.mem_map_of_mem ht, ?_⟩
      split_ifs <;> rfl
    · exact fun ⟨f, hf, heq⟩ => ⟨f, List.mem_append_left _ hf, heq⟩

/-- A change keeps the ranges quiet; while the search finishes, results start where something is
known to start. -/
theorem LostAct.passed {s s' : LostScan} (h : LostAct env hits entries s s')
    (hhits : ∀ h, hits h → s.finishing = true → LostStart env s h.start)
    (hentries : ∀ a b, entries a b → s.finishing = false) (hs : LostPassed env s) :
    LostPassed env s' := by
  cases h with
  | hint => exact ⟨hs.quiet, hs.queued, hs.finishing, hs.pending⟩
  | table start size hentry =>
    refine ⟨fun k hk hstate => ?_, fun hfin => ?_, hs.finishing, hs.pending⟩
    · obtain ⟨hold, hout⟩ := lostConflict_passed hk hstate
      rintro x (⟨t, ht, rfl⟩ | hx)
      · rcases List.mem_append.mp ht with ht | ht
        · exact hs.quiet k hold hstate _ (Or.inl ⟨t, ht, rfl⟩)
        · rw [List.mem_singleton.mp ht]
          exact hout
      · exact hs.quiet k hold hstate x (Or.inr hx)
    · exact absurd hfin (by simp [hentries _ _ hentry])
  | jump endAt _ _ hev =>
    refine ⟨fun k hk hstate => ?_, fun hfin k hk => ?_, hs.finishing, hs.pending⟩
    · rcases List.mem_append.mp hk with hk | hk
      · exact hs.quiet k hk hstate
      · rw [List.mem_singleton.mp hk]
        exact lostQuiet_of_evidence hev
    · rcases List.mem_append.mp hk with hk | hk
      · exact hs.queued hfin k hk
      · rw [List.mem_singleton.mp hk]
        simp
  | record hit hhit hig hnew =>
    refine ⟨fun k hk hstate => ?_, fun hfin k hk hstate => ?_, hs.finishing, hs.pending⟩
    · obtain ⟨hold, hout⟩ := lostConflict_passed hk hstate
      rintro x (⟨t, ht, rfl⟩ | hx | ⟨f, hf, rfl⟩)
      · obtain ⟨t', ht', rfl⟩ := List.mem_map.mp ht
        refine hs.quiet k hold hstate _ (Or.inl ⟨t', ht', ?_⟩)
        split_ifs <;> rfl
      · exact hs.quiet k hold hstate x (Or.inr (Or.inl hx))
      · rcases List.mem_append.mp hf with hf | hf
        · exact hs.quiet k hold hstate _ (Or.inr (Or.inr ⟨f, hf, rfl⟩))
        · rw [List.mem_singleton.mp hf]
          exact hout
    · rcases lostConflict_queued hk hstate with hk | ⟨k₀, hk₀, hpassed, hin⟩
      · exact hs.queued hfin k hk hstate
      · refine hs.quiet k₀ hk₀ hpassed hit.start (hhits hit hhit hfin) ?_
        simpa only [lostEffectiveHit_start] using hin

theorem LostActs.passed {s s' : LostScan} (h : LostActs env hits entries s s')
    (hhits : ∀ h, hits h → s.finishing = true → LostStart env s h.start)
    (hentries : ∀ a b, entries a b → s.finishing = false) (hs : LostPassed env s) :
    LostPassed env s' := by
  have hall : LostPassed env s'
      ∧ (∀ h, hits h → s'.finishing = true → LostStart env s' h.start)
      ∧ ∀ a b, entries a b → s'.finishing = false := by
    refine Runs.preserves (P := fun a => LostPassed env a
      ∧ (∀ h, hits h → a.finishing = true → LostStart env a h.start)
      ∧ ∀ x y, entries x y → a.finishing = false) (fun a b hab ha => ?_) h ⟨hs, hhits, hentries⟩
    obtain ⟨ha, hahits, haentries⟩ := ha
    have hfin := hab.frame.finishing_eq
    refine ⟨hab.passed hahits haentries ha, fun h hh hb => hab.start (hahits h hh ?_),
      fun x y hxy => hfin.trans (haentries x y hxy)⟩
    exact hfin ▸ hb
  exact hall.1

theorem LostRound.passed {s s' : LostScan} (hquick : env.deep = false) (h : LostRound env s s')
    (hs : LostPassed env s) : LostPassed env s' := by
  cases h with
  | finish _ _ _ _ hnone => exact ⟨hs.quiet, fun _ => hnone, fun _ => rfl, hs.pending⟩
  | pass i k _ hrun =>
    refine ⟨fun k' hk' hstate => ?_, fun hfin => ?_, hs.finishing, hs.pending⟩
    · rcases List.mem_or_eq_of_mem_set hk' with hk' | rfl
      · exact hs.quiet k' hk' hstate
      · cases hstate
    · exact absurd hfin (by simp [hrun])
  | misaligned => exact ⟨hs.quiet, hs.queued, hs.finishing, hs.pending⟩
  | skipRange => exact ⟨hs.quiet, hs.queued, hs.finishing, hs.pending⟩
  | visit c _ _ _ hrun _ _ _ _ _ _ _ hacts =>
    refine LostActs.passed hacts (fun h _ hfin => ?_) (fun _ _ _ => hrun)
      ⟨hs.quiet, hs.queued, hs.finishing, hs.pending⟩
    exact absurd hfin (by simp [hrun])
  | settle _ _ hdeep => rw [hquick] at hdeep; cases hdeep
  | chunk _ _ hdeep => rw [hquick] at hdeep; cases hdeep
  | pending hit _ _ _ hget => rw [hs.pending] at hget; cases hget
  | claimed => exact ⟨hs.quiet, hs.queued, hs.finishing, hs.pending⟩
  | entry t _ _ _ _ hget _ hacts =>
    refine LostActs.passed hacts (fun h hh _ => ?_) (fun _ _ h => absurd h not_false)
      ⟨hs.quiet, hs.queued, hs.finishing, hs.pending⟩
    rw [hh]
    exact Or.inl ⟨t, SortedSearch.mem_of_getElem? hget, rfl⟩
  | ends _ hrun => exact ⟨hs.quiet, hs.queued, fun _ => hrun, hs.pending⟩

theorem LostStep.passed {s s' : LostScan} (hquick : env.deep = false) (h : LostStep env s s')
    (hs : LostPassed env s) : LostPassed env s' := by
  cases h with
  | round h => exact h.passed hquick hs
  | clamp => exact ⟨hs.quiet, hs.queued, hs.finishing, hs.pending⟩

theorem roverLostScanBegin_passed : LostPassed env (roverLostScanBegin env) := by
  obtain ⟨m, hacts, hm⟩ := @roverLostScanBegin_acts env
  have hempty : LostPassed env .empty :=
    ⟨fun k hk => absurd hk List.not_mem_nil, fun h => Bool.noConfusion h,
      fun h => Bool.noConfusion h, rfl⟩
  have hpassed := LostActs.passed hacts (fun _ h => absurd h not_false) (fun _ _ _ => rfl) hempty
  rw [hm]
  exact ⟨hpassed.quiet, hpassed.queued, hpassed.finishing, hpassed.pending⟩

theorem LostReach.passed (hquick : env.deep = false) {s : LostScan} (h : LostReach env s) :
    LostPassed env s :=
  h.preserves roverLostScanBegin_passed fun _ _ hstep hs => hstep.passed hquick hs

/-! ### A search that is over -/

/-- When the search is over, what is accounted for was examined or passed for good. -/
theorem LostCovered.at_end {s : LostScan} {x : ℕ} (hpassed : LostPassed env s)
    (hdone : s.done = true) (hx : LostCovered env s x) :
    .candidate x ∈ s.trace ∨ LostInside env x
      ∨ ∃ k ∈ s.skips, k.state = .passed ∧ k.fromOff ≤ x ∧ x < k.toOff := by
  have hfin := hpassed.finishing hdone
  refine hx.imp_right (Or.imp_right ?_)
  rintro (⟨k, hk, hstate, hin⟩ | ⟨hrun, -⟩)
  · refine ⟨k, hk, ?_, hin⟩
    cases hks : k.state with
    | passed => rfl
    | queued => exact absurd hks (hpassed.queued hfin k hk)
    | done => exact absurd hks hstate
  · rw [hrun] at hfin
    cases hfin

theorem roverLostScanBegin_fields :
    (roverLostScanBegin env).finishing = false ∧ (roverLostScanBegin env).limit = 2 ^ 64 - 1
      ∧ (roverLostScanBegin env).pos = env.origin := by
  obtain ⟨m, hacts, hm⟩ := @roverLostScanBegin_acts env
  have hframe := LostActs.frame hacts
  rw [hm]
  exact ⟨hframe.finishing_eq, hframe.limit_eq, rfl⟩

/-- Everything from the start offset on is ahead of the first scan. -/
theorem roverLostScanBegin_covered {x : ℕ} (horigin : env.origin ≤ x) (hle : x ≤ env.size) :
    LostCovered env (roverLostScanBegin env) x := by
  obtain ⟨hrun, hlimit, hpos⟩ := @roverLostScanBegin_fields env
  have hsize := env.size_le
  refine Or.inr (Or.inr (Or.inr ⟨hrun, hpos ▸ horigin, ?_⟩))
  rw [hlimit]
  omega

theorem LostReach.covered (hquick : env.deep = false) {s : LostScan} (h : LostReach env s) {x : ℕ}
    (hx : LostCandidate env (roverLostScanBegin env) x) (horigin : env.origin ≤ x) :
    LostCovered env s x := by
  have hall : LostCandidate env s x ∧ LostCovered env s x ∧ LostHints env s.hints
      ∧ LostPassed env s := by
    refine h.preserves (P := fun s => LostCandidate env s x ∧ LostCovered env s x
      ∧ LostHints env s.hints ∧ LostPassed env s) ⟨hx, roverLostScanBegin_covered horigin hx.1,
        roverLostScanBegin_hints, roverLostScanBegin_passed⟩ ?_
    rintro a b hab ⟨hcand, hcov, hhints, hpassed⟩
    exact ⟨hcand.grows hab.grows,
      hab.covered hquick hhints hpassed.pending hpassed.finishing hcand hcov, hab.hints hhints,
      hab.passed hquick hpassed⟩
  exact hall.2.1

/-- Stepping over is sound: a quick search that is over has examined every candidate it began
with, except inside readable partitions and in ranges stepped over in which nothing starts. -/
theorem lostScan_covers_grid (env : LostSearch) (hquick : env.deep = false) (s : LostScan)
    (hcalls : LostCalls env s) (hdone : s.done = true) :
    (∀ c, LostGrid env c ∨ c ∈ (roverLostScanBegin env).hints → env.origin ≤ c → c ≤ env.size →
        .candidate c ∈ s.trace ∨ LostInside env c
          ∨ ∃ k ∈ s.skips, k.state = .passed ∧ k.fromOff ≤ c ∧ c < k.toOff)
      ∧ (∀ k ∈ s.skips, k.state = .passed →
        (∀ p ∈ s.reports, ¬ (k.fromOff ≤ p.offset ∧ p.offset < k.toOff))
          ∧ (∀ t ∈ s.tables, ¬ (k.fromOff ≤ t.start ∧ t.start < k.toOff))
          ∧ ∀ r ∈ env.ranges, r.readable = false → ¬ (k.fromOff ≤ r.start ∧ r.start < k.toOff))
      ∧ ∀ k ∈ s.skips, k.state ≠ .queued := by
  have hreach := hcalls.reach
  have hpassed := hreach.passed hquick
  refine ⟨fun c hc horigin hle => ?_, fun k hk hstate => ?_,
    hpassed.queued (hpassed.finishing hdone)⟩
  · exact (hreach.covered hquick ⟨hle, hc⟩ horigin).at_end hpassed hdone
  · have hquiet := hpassed.quiet k hk hstate
    refine ⟨fun p hp => hquiet _ (Or.inr (Or.inr ⟨p.found, ?_, rfl⟩)),
      fun t ht => hquiet _ (Or.inl ⟨t, ht, rfl⟩),
      fun r hr hread => hquiet _ (Or.inr (Or.inl ⟨r, hr, hread, rfl⟩))⟩
    rw [← hreach.reports]
    exact List.mem_map_of_mem hp

/-- A disk of 32 KiB of zeros. -/
def lostZeroDisk : LostSearch := .ofImage 64 0 (.ofFields []) [] false

theorem lostZeroDisk_covers_grid : ∃ s, LostCalls lostZeroDisk s ∧ s.done = true
    ∧ (.candidate 0 ∈ s.trace ∨ LostInside lostZeroDisk 0
      ∨ ∃ k ∈ s.skips, k.state = .passed ∧ k.fromOff ≤ 0 ∧ 0 < k.toOff) := by
  obtain ⟨s, hcalls, hdone⟩ := @LostCalls.of_eval lostZeroDisk 30 (fun _ => false)
    (by decide +kernel)
  have hcovers := (lostScan_covers_grid lostZeroDisk (by decide) s hcalls hdone).1
  exact ⟨s, hcalls, hdone, hcovers 0 (Or.inl ⟨by decide, Or.inl (by decide)⟩)
    (by decide) (Nat.zero_le _)⟩

/-! ### Hints -/

/-- A hint is recorded at an offset that the search will come to, or need not come to. -/
def LostHintReached (env : LostSearch) (early : List LostEvent) (x pos limit : ℕ)
    (skips : List LostSkip) (finishing : Bool) : Prop :=
  .candidate x ∈ early ∨ LostInside env x ∨ LostStepped skips x
    ∨ finishing = false ∧ pos ≤ x ∧ x < limit

/-- Every hint was recorded at such an offset. -/
def LostHintsReached (env : LostSearch) (trace : List LostEvent) : Prop :=
  ∀ late early x pos limit skips finishing,
    trace = late ++ .hint x pos limit skips finishing :: early →
    LostHintReached env early x pos limit skips finishing

/-- A hint is recorded ahead of the present pass. -/
def LostEvent.ahead : LostEvent → Bool
  | .hint x pos limit _ finishing => !finishing && pos ≤ x && x < limit
  | _ => true

theorem LostHintsReached.of_ahead {trace : List LostEvent}
    (h : ∀ e ∈ trace, e.ahead = true) : LostHintsReached env trace := by
  rintro late early x pos limit skips finishing rfl
  have hahead := h (.hint x pos limit skips finishing)
    (List.mem_append_right _ List.mem_cons_self)
  simp only [LostEvent.ahead, Bool.and_eq_true, Bool.not_eq_true', decide_eq_true_eq] at hahead
  exact Or.inr (Or.inr (Or.inr ⟨hahead.1.1, hahead.1.2, hahead.2⟩))

theorem LostHintsReached.suffix {early trace : List LostEvent} (h : LostHintsReached env trace)
    (hsuffix : early <:+ trace) : LostHintsReached env early := by
  obtain ⟨late, rfl⟩ := hsuffix
  rintro mid rest x pos limit skips finishing rfl
  exact h (late ++ mid) rest x pos limit skips finishing (List.append_assoc _ _ _).symm

/-- The hints from the start offset on are accounted for, if each was recorded where the search
will come. -/
def LostHintsCovered (env : LostSearch) (s : LostScan) : Prop :=
  LostHintsReached env s.trace → ∀ x ∈ s.hints, env.origin ≤ x → LostCovered env s x

theorem LostAct.hintsCovered {s s' : LostScan} (h : LostAct env hits entries s s')
    (hs : LostHintsCovered env s) : LostHintsCovered env s' := by
  intro hreached x hx horigin
  have hold : ∀ y ∈ s.hints, env.origin ≤ y → LostCovered env s' y := fun y hy hyo =>
    h.covered (hs (hreached.suffix h.frame.trace_suffix) y hy hyo)
  cases h with
  | hint offset hle hmod hnew =>
    rcases SortedSearch.mem_insertNew.mp hx with rfl | hx
    · have hcov : LostCovered env s x := hreached [] s.trace x s.pos s.limit s.skips s.finishing rfl
      exact LostAct.covered (.hint x hle hmod hnew : LostAct env hits entries s _) hcov
    · exact hold x hx horigin
  | table => exact hold x hx horigin
  | jump => exact hold x hx horigin
  | record => exact hold x hx horigin

theorem LostActs.hintsCovered {s s' : LostScan} (h : LostActs env hits entries s s')
    (hs : LostHintsCovered env s) : LostHintsCovered env s' :=
  Runs.preserves (P := LostHintsCovered env) (fun _ _ hab ha => hab.hintsCovered ha) h hs

theorem LostRound.hintsCovered {s s' : LostScan} (hquick : env.deep = false)
    (hh : LostHints env s.hints) (hpending : s.pending = []) (h : LostRound env s s')
    (hs : LostHintsCovered env s) : LostHintsCovered env s' := by
  have hkeep : s'.hints = s.hints → LostHintsCovered env s' := fun heq hreached x hx horigin =>
    h.covered hquick hh hpending ⟨hh.le_size x (heq ▸ hx), Or.inr (heq ▸ hx)⟩
      (hs (hreached.suffix h.grows.trace) x (heq ▸ hx) horigin)
  cases h with
  | finish => exact hkeep rfl
  | pass => exact hkeep rfl
  | misaligned => exact hkeep rfl
  | skipRange => exact hkeep rfl
  | visit c _ _ _ hrun _ hc _ _ _ _ _ hacts =>
    refine LostActs.hintsCovered hacts fun hreached x hx horigin => ?_
    exact (hs (hreached.suffix (List.suffix_cons _ _)) x hx horigin).visit hh hrun hc
      ⟨hh.le_size x hx, Or.inr hx⟩
  | settle _ _ hdeep => rw [hquick] at hdeep; cases hdeep
  | chunk _ _ hdeep => rw [hquick] at hdeep; cases hdeep
  | pending hit _ _ _ hget => rw [hpending] at hget; cases hget
  | claimed => exact hkeep rfl
  | entry t _ _ _ _ _ _ hacts => exact LostActs.hintsCovered hacts hs
  | ends => exact hkeep rfl

theorem LostStep.hintsCovered {s s' : LostScan} (hquick : env.deep = false)
    (hh : LostHints env s.hints) (hpassed : LostPassed env s) (h : LostStep env s s')
    (hs : LostHintsCovered env s) : LostHintsCovered env s' := by
  cases h with
  | round h => exact h.hintsCovered hquick hh hpassed.pending hs
  | clamp hend =>
    exact fun hreached x hx horigin => LostStep.covered hquick hh hpassed.pending hpassed.finishing
      (.clamp hend) ⟨hh.le_size x hx, Or.inr hx⟩ (hs hreached x hx horigin)

theorem LostReach.hintsCovered (hquick : env.deep = false) {s : LostScan} (h : LostReach env s) :
    LostHintsCovered env s := by
  have hall : LostHintsCovered env s ∧ LostHints env s.hints ∧ LostPassed env s := by
    refine h.preserves (P := fun s => LostHintsCovered env s ∧ LostHints env s.hints
      ∧ LostPassed env s) ⟨fun _ x hx horigin => ?_, roverLostScanBegin_hints,
        roverLostScanBegin_passed⟩ ?_
    · exact roverLostScanBegin_covered horigin (roverLostScanBegin_hints.le_size x hx)
    · rintro a b hab ⟨hcov, hhints, hpassed⟩
      exact ⟨hab.hintsCovered hquick hhints hpassed hcov, hab.hints hhints,
        hab.passed hquick hpassed⟩
  exact hall.1

/-- The second superblock copy of an ext2 filesystem of one block, which ends 1 KiB before the
candidate at sector 63 that leads to it. -/
def lostExtCopyDisk : LostSearch :=
  .ofImage 80 0 (.ofFields [(33284, [1]), (33312, [3]), (33336, [0x53, 0xef]), (33370, [1])]) []
    false

end FsRover
