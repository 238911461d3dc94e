import Mathlib.Order.MinMax
import FsRover.Lost.Steps

/-!
# Candidates

Which offsets `lost_next` gives: the grid of the partitioning tools and the hints, in ascending
order. It never passes a candidate, even where an addition wraps; where nothing wraps it never
goes back.

## Main definitions

* `FsRover.LostGrid` : the candidates that every search has.
* `FsRover.LostHints` : the hint array of a scan is sorted, on sectors and on the device.
* `FsRover.LostSearch.Reaches` : no addition of `lost_next` wraps at this offset.

## Main results

* `FsRover.lostNext_le_grid`, `FsRover.lostNext_le_hint` : no candidate is passed.
* `FsRover.le_lostNext` : the next candidate is not behind.
* `FsRover.LostReach.hints` : the hint array keeps its invariant.
-/

namespace FsRover

variable {env : LostSearch}

variable (env) in
/-- A candidate of every search: on a sector, and a multiple of one MiB or the first sector of one
of the heads 0 to 2 of a cylinder of 512-byte sectors. -/
def LostGrid (c : ℕ) : Prop :=
  c % env.sectorSize = 0
    ∧ (c % LOST_MIB = 0
      ∨ env.sectorSize = 512
        ∧ ∃ cylinder head, head < 3 ∧ c = cylinder * LOST_CYLINDER + head * LOST_TRACK)

/-- The hint array: strictly ascending sector offsets up to the device end. -/
structure LostHints (env : LostSearch) (hints : List ℕ) : Prop where
  sorted : hints.Pairwise (· < ·)
  le_size : ∀ h ∈ hints, h ≤ env.size
  mod : ∀ h ∈ hints, h % env.sectorSize = 0

/-! ### The grid -/

/-- The next head does not pass a head at or after `x`. -/
theorem lostNextHead_le {x cylinder head : ℕ} (hhead : head < 3)
    (hx : x ≤ cylinder * LOST_CYLINDER + head * LOST_TRACK)
    (hlt : cylinder * LOST_CYLINDER + head * LOST_TRACK < 2 ^ 64) :
    lostNextHead x head ≤ cylinder * LOST_CYLINDER + head * LOST_TRACK := by
  have hshort : head * LOST_TRACK < LOST_CYLINDER := by
    unfold LOST_CYLINDER LOST_TRACK
    omega
  unfold lostNextHead
  generalize LOST_CYLINDER = cyl at *
  generalize head * LOST_TRACK = first at *
  have hle : x / cyl ≤ cylinder :=
    Nat.lt_succ_iff.mp (Nat.div_lt_of_lt_mul (by rw [Nat.mul_succ, Nat.mul_comm]; omega))
  have hbase : x / cyl * cyl ≤ cylinder * cyl := Nat.mul_le_mul_right _ hle
  rw [u64_of_lt (lt_of_le_of_lt (Nat.add_le_add_right hbase _) hlt)]
  dsimp only
  split_ifs with hbefore
  · have hstrict : x / cyl < cylinder := lt_of_le_of_ne hle fun h => by
      rw [h] at hbefore
      omega
    have hnext : (x / cyl + 1) * cyl ≤ cylinder * cyl := Nat.mul_le_mul_right _ hstrict
    rw [Nat.add_mul, Nat.one_mul] at hnext
    exact (u64_le _).trans (by omega)
  · exact Nat.add_le_add_right hbase _

theorem lostNextGrid_le {c x : ℕ} (hc : LostGrid env c) (hx : x ≤ c) (hlt : c < 2 ^ 64) :
    lostNextGrid env x ≤ c := by
  have hround : c % LOST_MIB = 0 → lostRoundUp x LOST_MIB ≤ c := by
    intro hmod
    have hdvd := Nat.div_mul_cancel (Nat.dvd_of_mod_eq_zero hmod)
    rw [← hdvd]
    exact lostRoundUp_le (by decide) (hdvd.symm ▸ hx)
  unfold lostNextGrid
  dsimp only
  rcases hc.2 with hmib | ⟨hss, cylinder, head, hhead, rfl⟩
  · split_ifs
    · exact (min_le_left _ _).trans ((min_le_left _ _).trans
        ((min_le_left _ _).trans (hround hmib)))
    · exact hround hmib
  · rw [if_pos hss]
    have hle := lostNextHead_le hhead hx hlt
    obtain rfl | rfl | rfl : head = 0 ∨ head = 1 ∨ head = 2 := by omega
    · exact (min_le_left _ _).trans ((min_le_left _ _).trans ((min_le_right _ _).trans hle))
    · exact (min_le_left _ _).trans ((min_le_right _ _).trans hle)
    · exact (min_le_right _ _).trans hle

/-! ### Candidates and hints -/

/-- No hint at or after `x` is passed. -/
theorem lostNext_le_hint {hints : List ℕ} (hh : LostHints env hints) {c x : ℕ} (hc : c ∈ hints)
    (hx : x ≤ c) : lostNext env hints x ≤ c := by
  obtain ⟨z, hz, -, hzc⟩ := SortedSearch.lowerBound_least hh.sorted hc hx
  have hmin : min (lostNextGrid env x) z ≤ c := (min_le_right _ _).trans hzc
  unfold lostNext
  rw [hz]
  dsimp only
  rw [if_neg (not_lt.mpr (hmin.trans (hh.le_size c hc)))]
  exact hmin

/-- No grid candidate at or after `x` is passed. -/
theorem lostNext_le_grid (hints : List ℕ) {c x : ℕ} (hc : LostGrid env c) (hx : x ≤ c)
    (hle : c ≤ env.size) : lostNext env hints x ≤ c := by
  have hgrid := lostNextGrid_le hc hx (lt_of_le_of_lt hle env.size_lt)
  unfold lostNext
  dsimp only
  split
  · next z hz =>
    have hmin := (min_le_left _ z).trans hgrid
    rwa [if_neg (not_lt.mpr (hmin.trans hle))]
  · rwa [if_neg (not_lt.mpr (hgrid.trans hle))]

variable (env) in
/-- No addition of `lost_next` wraps at `x`. -/
def LostSearch.Reaches (x : ℕ) : Prop := x ≤ lostNextGrid env x

/-- Where nothing wraps, the next candidate is not behind. -/
theorem le_lostNext {hints : List ℕ} (hh : LostHints env hints) {x : ℕ} (hx : env.Reaches x)
    (hle : x ≤ env.size + 1) : x ≤ lostNext env hints x := by
  unfold lostNext
  dsimp only
  split
  · next z hz =>
    have hmin := le_min hx (SortedSearch.le_of_lowerBound hh.sorted hz)
    split_ifs
    · exact hle
    · exact hmin
  · split_ifs
    · exact hle
    · exact hx

theorem lostNext_of_size_lt {hints : List ℕ} (hh : LostHints env hints) {x : ℕ}
    (hx : env.Reaches x) (hlt : env.size < x) : lostNext env hints x = env.size + 1 := by
  unfold lostNext
  dsimp only
  split
  · next z hz =>
    have hle := hh.le_size z (SortedSearch.mem_of_getElem? hz)
    have hge := SortedSearch.le_of_lowerBound hh.sorted hz
    omega
  · exact if_pos (hlt.trans_le hx)

/-- Every candidate is at most one byte behind the device. -/
theorem lostNext_le (hints : List ℕ) (x : ℕ) : lostNext env hints x ≤ env.size + 1 := by
  unfold lostNext
  dsimp only
  split <;> split_ifs <;> omega

theorem dvd_u64 {n : ℕ} (h : 512 ∣ n) : 512 ∣ u64 n := (Nat.dvd_mod_iff (by decide)).mpr h

theorem dvd_lostNextHead (x head : ℕ) : 512 ∣ lostNextHead x head := by
  have hcyl : 512 ∣ LOST_CYLINDER := by decide
  have htrack : 512 ∣ LOST_TRACK := by decide
  have hbase : 512 ∣ u64 (x / LOST_CYLINDER * LOST_CYLINDER + head * LOST_TRACK) :=
    dvd_u64 (Nat.dvd_add (Nat.dvd_mul_left_of_dvd hcyl _) (Nat.dvd_mul_left_of_dvd htrack _))
  unfold lostNextHead
  dsimp only
  split_ifs
  · exact dvd_u64 (Nat.dvd_add hbase hcyl)
  · exact hbase

theorem dvd_lostNextGrid (x : ℕ) : env.sectorSize ∣ lostNextGrid env x := by
  have hmib : env.sectorSize ∣ lostRoundUp x LOST_MIB :=
    Nat.dvd_mul_left_of_dvd (env.sectorSize_dvd (by decide)) _
  unfold lostNextGrid
  dsimp only
  split_ifs with hss
  · have hhead := dvd_lostNextHead x
    rw [← hss] at hhead
    rcases min_choice (min (min (lostRoundUp x LOST_MIB) (lostNextHead x 0)) (lostNextHead x 1))
      (lostNextHead x 2) with h | h <;> rw [h]
    · rcases min_choice (min (lostRoundUp x LOST_MIB) (lostNextHead x 0)) (lostNextHead x 1) with
        h | h <;> rw [h]
      · rcases min_choice (lostRoundUp x LOST_MIB) (lostNextHead x 0) with h | h <;> rw [h]
        · exact hmib
        · exact hhead 0
      · exact hhead 1
    · exact hhead 2
  · exact hmib

theorem lostNext_mod {hints : List ℕ} (hh : LostHints env hints) {x : ℕ}
    (hle : lostNext env hints x ≤ env.size) : lostNext env hints x % env.sectorSize = 0 := by
  have hgrid := Nat.mod_eq_zero_of_dvd (@dvd_lostNextGrid env x)
  unfold lostNext at hle ⊢
  dsimp only at hle ⊢
  split at hle
  · next z hz =>
    have hmod := hh.mod z (SortedSearch.mem_of_getElem? hz)
    split_ifs at hle ⊢
    · omega
    · rcases min_choice (lostNextGrid env x) z with h | h <;> rw [h]
      · exact hgrid
      · exact hmod
  · split_ifs at hle ⊢
    · omega
    · exact hgrid

theorem lostNextHead_eq_self {x head : ℕ} (hhead : head < 3) (hx : x < 2 ^ 64)
    (h : lostNextHead x head = x) : ∃ cylinder, x
      = cylinder * LOST_CYLINDER + head * LOST_TRACK := by
  have hshort : head * LOST_TRACK < LOST_CYLINDER := by
    unfold LOST_CYLINDER LOST_TRACK
    omega
  have hlong : LOST_CYLINDER < 2 ^ 32 := by decide
  have hpos : 0 < LOST_CYLINDER := by decide
  unfold lostNextHead at h
  generalize LOST_CYLINDER = cyl at *
  generalize head * LOST_TRACK = first at *
  have hmod := Nat.mod_lt x hpos
  have hdiv := Nat.div_add_mod x cyl
  rw [Nat.mul_comm] at hdiv
  refine ⟨x / cyl, ?_⟩
  generalize x / cyl * cyl = base at *
  unfold u64 at h
  dsimp only at h
  split_ifs at h <;> omega

/-- What `lost_next` gives for itself is on the grid or a hint. -/
theorem lostNext_eq_self {hints : List ℕ} (hh : LostHints env hints) {c : ℕ} (hle : c ≤ env.size)
    (h : lostNext env hints c = c) : LostGrid env c ∨ c ∈ hints := by
  have hmod : c % env.sectorSize = 0 := by
    have hnext := lostNext_mod hh (x := c) (h.symm ▸ hle)
    rwa [h] at hnext
  have hgrid : lostNextGrid env c = c → LostGrid env c := by
    intro heq
    have hlt := lt_of_le_of_lt hle env.size_lt
    have hround : lostRoundUp c LOST_MIB = c → LostGrid env c := fun heq =>
      ⟨hmod, Or.inl (heq ▸ Nat.mul_mod_left _ _)⟩
    unfold lostNextGrid at heq
    dsimp only at heq
    split_ifs at heq with hss
    · have hhead : ∀ head < 3, lostNextHead c head = c → LostGrid env c := by
        intro head hhead heq
        obtain ⟨cylinder, hc⟩ := lostNextHead_eq_self hhead hlt heq
        exact ⟨hmod, Or.inr ⟨hss, cylinder, head, hhead, hc⟩⟩
      rcases min_choice (min (min (lostRoundUp c LOST_MIB) (lostNextHead c 0)) (lostNextHead c 1))
        (lostNextHead c 2) with h | h <;> rw [h] at heq
      · rcases min_choice (min (lostRoundUp c LOST_MIB) (lostNextHead c 0)) (lostNextHead c 1) with
          h | h <;> rw [h] at heq
        · rcases min_choice (lostRoundUp c LOST_MIB) (lostNextHead c 0) with h | h <;>
            rw [h] at heq
          · exact hround heq
          · exact hhead 0 (by omega) heq
        · exact hhead 1 (by omega) heq
      · exact hhead 2 (by omega) heq
    · exact hround heq
  unfold lostNext at h
  dsimp only at h
  split at h
  · next z hz =>
    split_ifs at h
    · omega
    · rcases min_choice (lostNextGrid env c) z with hmin | hmin <;> rw [hmin] at h
      · exact Or.inl (hgrid h)
      · exact Or.inr (h ▸ SortedSearch.mem_of_getElem? hz)
  · split_ifs at h
    · omega
    · exact Or.inl (hgrid h)

variable (env) in
/-- `lost_next` stops at `c`. -/
def LostStop (hints : List ℕ) (c : ℕ) : Prop := c ≤ env.size ∧ lostNext env hints c = c

/-- `lost_next` does not pass a place where it stops. -/
theorem LostStop.next_le {hints : List ℕ} {c x : ℕ} (h : LostStop env hints c)
    (hh : LostHints env hints) (hx : x ≤ c) : lostNext env hints x ≤ c :=
  (lostNext_eq_self hh h.1 h.2).elim (fun hgrid => lostNext_le_grid hints hgrid hx h.1)
    fun hmem => lostNext_le_hint hh hmem hx

theorem LostStop.mod {hints : List ℕ} {c : ℕ} (h : LostStop env hints c)
    (hh : LostHints env hints) : c % env.sectorSize = 0 := by
  have hmod := lostNext_mod hh (x := c) (h.2.symm ▸ h.1)
  rwa [h.2] at hmod

theorem LostStop.mono {hints hints' : List ℕ} {c : ℕ} (h : LostStop env hints c)
    (hh : LostHints env hints) (hh' : LostHints env hints') (hsub : hints ⊆ hints') :
    LostStop env hints' c := by
  have hreach : c ≤ lostNextGrid env c := by
    have heq := h.2
    have hle := h.1
    unfold lostNext at heq
    dsimp only at heq
    split at heq
    · next z hz =>
      have hmin := min_le_left (lostNextGrid env c) z
      rcases min_choice (lostNextGrid env c) z with h | h <;> rw [h] at heq hmin <;>
        split_ifs at heq <;> omega
    · split_ifs at heq <;> omega
  refine ⟨h.1, le_antisymm ?_ (le_lostNext hh' hreach (by have := h.1; omega))⟩
  exact (lostNext_eq_self hh h.1 h.2).elim (fun hgrid => lostNext_le_grid _ hgrid le_rfl h.1)
    fun hmem => lostNext_le_hint hh' (hsub hmem) le_rfl

/-! ### The hint array of a scan -/

theorem LostHints.nil : LostHints env [] :=
  ⟨List.Pairwise.nil, fun _ h => absurd h List.not_mem_nil, fun _ h => absurd h List.not_mem_nil⟩

theorem LostHints.insertNew {hints : List ℕ} (hh : LostHints env hints) {offset : ℕ}
    (hle : offset ≤ env.size) (hmod : offset % env.sectorSize = 0) :
    LostHints env (SortedSearch.insertNew hints offset) := by
  refine ⟨SortedSearch.pairwise_insertNew hh.sorted _, fun h hmem => ?_, fun h hmem => ?_⟩
  all_goals
    rcases SortedSearch.mem_insertNew.mp hmem with rfl | hmem
  · exact hle
  · exact hh.le_size h hmem
  · exact hmod
  · exact hh.mod h hmem

theorem LostAct.hints {hits : LostHit → Prop} {entries : ℕ → ℕ → Prop} {s s' : LostScan}
    (h : LostAct env hits entries s s') (hs : LostHints env s.hints) : LostHints env s'.hints := by
  cases h with
  | hint offset hle hmod hnew => exact hs.insertNew hle hmod
  | table => exact hs
  | jump => exact hs
  | record => exact hs

theorem LostActs.hints {hits : LostHit → Prop} {entries : ℕ → ℕ → Prop} {s s' : LostScan}
    (h : LostActs env hits entries s s') (hs : LostHints env s.hints) : LostHints env s'.hints :=
  Runs.preserves (P := fun s => LostHints env s.hints) (fun _ _ => LostAct.hints) h hs

theorem LostChunkActs.hints {hits : LostHit → Prop} {entries : ℕ → ℕ → Prop} {s s' : LostScan}
    (h : LostChunkActs env hits entries s s') (hs : LostHints env s.hints) :
    LostHints env s'.hints := by
  refine Runs.preserves (P := fun s => LostHints env s.hints) (fun a b hab ha => ?_) h hs
  cases hab with
  | act h => exact h.hints ha
  | sector => exact ha
  | tail => exact ha
  | pend => exact ha

theorem LostRound.hints {s s' : LostScan} (h : LostRound env s s') (hs : LostHints env s.hints) :
    LostHints env s'.hints := by
  cases h with
  | finish => exact hs
  | pass => exact hs
  | misaligned => exact hs
  | skipRange => exact hs
  | visit _ _ _ _ _ _ _ _ _ _ _ _ hacts => exact LostActs.hints hacts hs
  | settle => exact hs
  | chunk =>
    obtain ⟨m, hacts, hm⟩ := @lostDeepChunk_acts env s
    have hhints := LostChunkActs.hints hacts hs
    rwa [hm]
  | pending _ _ _ _ _ hacts => exact LostActs.hints hacts hs
  | claimed => exact hs
  | entry _ _ _ _ _ _ _ hacts => exact LostActs.hints hacts hs
  | ends => exact hs

theorem LostStep.hints {s s' : LostScan} (h : LostStep env s s') (hs : LostHints env s.hints) :
    LostHints env s'.hints := by
  cases h with
  | round h => exact h.hints hs
  | clamp => exact hs

theorem roverLostScanBegin_hints : LostHints env (roverLostScanBegin env).hints := by
  obtain ⟨m, hacts, hm⟩ := @roverLostScanBegin_acts env
  have hhints := LostActs.hints hacts LostHints.nil
  rwa [hm]

/-- An offset on a sector of the device is a hint once it was added. -/
theorem mem_lostAddHint (s : LostScan) {x : ℕ} (hle : x ≤ env.size)
    (hmod : x % env.sectorSize = 0) : x ∈ (lostAddHint env s x).hints := by
  unfold lostAddHint
  rw [if_neg (by omega)]
  split_ifs with hold
  · exact SortedSearch.mem_of_getElem? hold
  · exact SortedSearch.mem_insertNew.mpr (Or.inl rfl)

theorem LostReach.size_mem {s : LostScan} (h : LostReach env s)
    (hmod : env.size % env.sectorSize = 0) : env.size ∈ s.hints :=
  h.preserves (P := fun s => env.size ∈ s.hints) (mem_lostAddHint _ le_rfl hmod)
    fun _ _ hstep hmem => hstep.grows.hints hmem

/-- The hint array keeps its invariant. -/
theorem LostReach.hints {s : LostScan} (h : LostReach env s) : LostHints env s.hints :=
  h.preserves (P := fun s => LostHints env s.hints) roverLostScanBegin_hints
    fun _ _ hstep => hstep.hints

end FsRover
