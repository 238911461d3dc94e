import Mathlib.Data.Nat.Find
import Mathlib.Order.Bounds.Basic
import FsRover.Lost.Coverage

/-!
# The least candidate

`lost_next` gives the least candidate at or after an offset, unless one of its sums wraps to an
offset on the device.

## Main definitions

* `FsRover.LostOffered` : what `lost_next` looks for.
* `FsRover.LostSearch.NextFits` : no sum that wraps leads to an offset on the device.

## Main results

* `FsRover.lostNext_eq_least_iff` : for any hint array that keeps its invariant.
* `FsRover.LostReach.lostNext_least` : in every scan that is reached.
-/

namespace FsRover

variable {env : LostSearch}

variable (env) in
/-- A multiple of one MiB, the first sector of one of the heads 0 to 2 of a cylinder of 512-byte
sectors, or a hint. -/
def LostOffered (hints : List ℕ) (c : ℕ) : Prop :=
  LOST_MIB ∣ c
    ∨ (env.sectorSize = 512 ∧ ∃ cylinder head, head < 3
      ∧ c = cylinder * LOST_CYLINDER + head * LOST_TRACK)
    ∨ c ∈ hints

variable (env) in
/-- The answer is the least candidate at or after `x`, or lies behind the device with it. -/
def LostLeast (hints : List ℕ) (x : ℕ) : Prop :=
  ∃ m, IsLeast {c | x ≤ c ∧ LostOffered env hints c} m
    ∧ lostNext env hints x = if env.size < m then env.size + 1 else m

/-- The first sector of a head of the cylinder that contains `x`. -/
def lostHeadOf (x head : ℕ) : ℕ := x / LOST_CYLINDER * LOST_CYLINDER + head * LOST_TRACK

variable (env) in
/-- Rounding `x` up to one MiB does not wrap, and where the same head of the next cylinder wraps, it
wraps to an offset behind the device. -/
def LostSearch.NextFits (x : ℕ) : Prop :=
  x + LOST_MIB ≤ 2 ^ 64
    ∧ (env.sectorSize = 512 → ∀ head < 3, lostHeadOf x head < x →
      2 ^ 64 ≤ lostHeadOf x head + LOST_CYLINDER →
        env.size < lostHeadOf x head + LOST_CYLINDER - 2 ^ 64)

/-! ### One head -/

/-- Below the last MiB of the 64-bit range the heads of a cylinder do not wrap. -/
theorem lostHeadOf_lt {x head : ℕ} (hhead : head < 3) (hx : x + LOST_MIB ≤ 2 ^ 64) :
    lostHeadOf x head < 2 ^ 64 := by
  have hbase := Nat.div_mul_le_self x LOST_CYLINDER
  have htrack : head * LOST_TRACK ≤ 2 * LOST_TRACK := Nat.mul_le_mul_right _ (by omega)
  have hsmall : 2 * LOST_TRACK < LOST_MIB := by decide
  unfold lostHeadOf
  omega

theorem lostNextHead_eq {x head : ℕ} (hlt : lostHeadOf x head < 2 ^ 64) :
    lostNextHead x head = if lostHeadOf x head < x then u64 (lostHeadOf x head + LOST_CYLINDER)
      else lostHeadOf x head := by
  have hu : u64 (x / LOST_CYLINDER * LOST_CYLINDER + head * LOST_TRACK) = lostHeadOf x head :=
    u64_of_lt hlt
  simp only [lostNextHead, hu]

/-- The next head is a candidate at or after `x`, if it has not wrapped. -/
theorem lostNextHead_offered {x head : ℕ} (hhead : head < 3) (hx : x + LOST_MIB ≤ 2 ^ 64)
    (hwrap : lostHeadOf x head < x → lostHeadOf x head + LOST_CYLINDER < 2 ^ 64) :
    x ≤ lostNextHead x head
      ∧ ∃ cylinder, lostNextHead x head = cylinder * LOST_CYLINDER + head * LOST_TRACK := by
  rw [lostNextHead_eq (lostHeadOf_lt hhead hx)]
  by_cases hbefore : lostHeadOf x head < x
  · have hmod := Nat.mod_lt x (by decide : 0 < LOST_CYLINDER)
    have hdiv := Nat.div_add_mod' x LOST_CYLINDER
    rw [if_pos hbefore, u64_of_lt (hwrap hbefore)]
    refine ⟨?_, x / LOST_CYLINDER + 1, ?_⟩
    · unfold lostHeadOf
      omega
    · rw [lostHeadOf, Nat.add_mul, Nat.one_mul]
      omega
  · rw [if_neg hbefore]
    exact ⟨Nat.le_of_not_lt hbefore, x / LOST_CYLINDER, rfl⟩

theorem lostNextHead_wrapped {x head : ℕ} (hhead : head < 3) (hx : x + LOST_MIB ≤ 2 ^ 64)
    (hbefore : lostHeadOf x head < x) (hwrap : 2 ^ 64 ≤ lostHeadOf x head + LOST_CYLINDER) :
    lostNextHead x head = lostHeadOf x head + LOST_CYLINDER - 2 ^ 64
      ∧ lostNextHead x head < x := by
  have hlt := lostHeadOf_lt hhead hx
  have hcyl : LOST_CYLINDER < 2 ^ 32 := by decide
  rw [lostNextHead_eq hlt, if_pos hbefore, u64]
  omega

theorem lostNextGrid_le_head {x head : ℕ} (hss : env.sectorSize = 512) (hhead : head < 3) :
    lostNextGrid env x ≤ lostNextHead x head := by
  unfold lostNextGrid
  dsimp only
  rw [if_pos hss]
  obtain rfl | rfl | rfl : head = 0 ∨ head = 1 ∨ head = 2 := by omega
  · exact (min_le_left _ _).trans ((min_le_left _ _).trans (min_le_right _ _))
  · exact (min_le_left _ _).trans (min_le_right _ _)
  · exact min_le_right _ _

/-! ### The answer -/

/-- The answer is one of the offsets that are compared, or lies behind the device. -/
theorem lostNext_cases (hints : List ℕ) (x : ℕ) (hle : lostNext env hints x ≤ env.size) :
    lostNext env hints x = lostRoundUp x LOST_MIB
      ∨ (env.sectorSize = 512 ∧ ∃ head < 3, lostNext env hints x = lostNextHead x head)
      ∨ hints[SortedSearch.lowerBound hints x]? = some (lostNext env hints x) := by
  have hgrid : lostNextGrid env x = lostRoundUp x LOST_MIB
      ∨ env.sectorSize = 512 ∧ ∃ head < 3, lostNextGrid env x = lostNextHead x head := by
    unfold lostNextGrid
    dsimp only
    split_ifs with hss
    · rcases min_choice (min (min (lostRoundUp x LOST_MIB) (lostNextHead x 0)) (lostNextHead x 1))
        (lostNextHead x 2) with h | h
      · rcases min_choice (min (lostRoundUp x LOST_MIB) (lostNextHead x 0)) (lostNextHead x 1)
          with h' | h'
        · rcases min_choice (lostRoundUp x LOST_MIB) (lostNextHead x 0) with h'' | h''
          · exact .inl (h.trans (h'.trans h''))
          · exact .inr ⟨hss, 0, by decide, h.trans (h'.trans h'')⟩
        · exact .inr ⟨hss, 1, by decide, h.trans h'⟩
      · exact .inr ⟨hss, 2, by decide, h⟩
    · exact .inl rfl
  cases hfound : hints[SortedSearch.lowerBound hints x]? with
  | none =>
    have hnext : lostNext env hints x = lostNextGrid env x := by
      unfold lostNext at hle ⊢
      rw [hfound] at hle ⊢
      dsimp only at hle ⊢
      split_ifs at hle ⊢ with hsize
      · exact absurd hle (Nat.not_succ_le_self _)
      · rfl
    rw [hnext]
    exact hgrid.imp_right .inl
  | some h =>
    have hnext : lostNext env hints x = min (lostNextGrid env x) h := by
      unfold lostNext at hle ⊢
      rw [hfound] at hle ⊢
      dsimp only at hle ⊢
      split_ifs at hle ⊢ with hsize
      · exact absurd hle (Nat.not_succ_le_self _)
      · rfl
    rw [hnext]
    rcases min_choice (lostNextGrid env x) h with heq | heq
    · rw [heq]
      exact hgrid.imp_right .inl
    · rw [heq]
      exact .inr (.inr rfl)

/-- An answer on the device is a candidate at or after `x`. -/
theorem lostNext_offered {hints : List ℕ} (hh : LostHints env hints) {x : ℕ}
    (hfits : env.NextFits x) (hle : lostNext env hints x ≤ env.size) :
    x ≤ lostNext env hints x ∧ LostOffered env hints (lostNext env hints x) := by
  obtain ⟨hmib, hheads⟩ := hfits
  rcases lostNext_cases hints x hle with hround | ⟨hss, head, hhead, heq⟩ | hfound
  · rw [hround]
    exact ⟨le_lostRoundUp (by decide) hmib, .inl (Nat.dvd_mul_left _ _)⟩
  · have hnowrap : lostHeadOf x head < x → lostHeadOf x head + LOST_CYLINDER < 2 ^ 64 := by
      intro hbefore
      by_contra hwrap
      have hbehind := hheads hss head hhead hbefore (Nat.le_of_not_lt hwrap)
      have hvalue := (lostNextHead_wrapped hhead hmib hbefore (Nat.le_of_not_lt hwrap)).1
      omega
    obtain ⟨hge, cylinder, hcylinder⟩ := lostNextHead_offered hhead hmib hnowrap
    rw [heq]
    exact ⟨hge, .inr (.inl ⟨hss, cylinder, head, hhead, hcylinder⟩)⟩
  · exact ⟨SortedSearch.le_of_lowerBound hh.sorted hfound,
      .inr (.inr (SortedSearch.mem_of_getElem? hfound))⟩

theorem lostNext_le_offered {hints : List ℕ} (hh : LostHints env hints) {c x : ℕ}
    (hc : LostOffered env hints c) (hx : x ≤ c) (hle : c ≤ env.size) :
    lostNext env hints x ≤ c := by
  rcases hc with hmib | ⟨hss, cylinder, head, hhead, rfl⟩ | hmem
  · have hmod : c % env.sectorSize = 0 :=
      Nat.mod_eq_zero_of_dvd (Nat.dvd_trans (env.sectorSize_dvd (k := 20) (by decide)) hmib)
    exact lostNext_le_grid hints ⟨hmod, .inl (Nat.mod_eq_zero_of_dvd hmib)⟩ hx hle
  · have hmod : (cylinder * LOST_CYLINDER + head * LOST_TRACK) % env.sectorSize = 0 := by
      rw [hss]
      have hcyl : 512 ∣ LOST_CYLINDER := by decide
      have htrack : 512 ∣ LOST_TRACK := by decide
      exact Nat.mod_eq_zero_of_dvd (Nat.dvd_add (Nat.dvd_mul_left_of_dvd hcyl _)
        (Nat.dvd_mul_left_of_dvd htrack _))
    exact lostNext_le_grid hints ⟨hmod, .inr ⟨hss, cylinder, head, hhead, rfl⟩⟩ hx hle
  · exact lostNext_le_hint hh hmem hx

theorem exists_least_offered (env : LostSearch) (hints : List ℕ) (x : ℕ) :
    ∃ m, IsLeast {c | x ≤ c ∧ LostOffered env hints c} m := by
  have hex : ∃ c, x ≤ c ∧ LostOffered env hints c :=
    ⟨x * LOST_MIB, Nat.le_mul_of_pos_right x (by decide), .inl (Nat.dvd_mul_left _ _)⟩
  classical
  exact ⟨Nat.find hex, Nat.find_spec hex, fun c hc => Nat.find_min' hex hc⟩

/-- The answer is the least candidate exactly if no sum wraps to an offset on the device. -/
theorem lostNext_eq_least_iff {hints : List ℕ} (hh : LostHints env hints) {x : ℕ}
    (hx : x < 2 ^ 64) : LostLeast env hints x ↔ env.NextFits x := by
  have hmibPos : LOST_MIB < 2 ^ 64 := by decide
  constructor
  · rintro ⟨m, ⟨⟨hxm, -⟩, -⟩, hnext⟩
    -- an answer on the device that lies before `x` is not the least candidate
    have hbad : lostNext env hints x ≤ env.size → ¬ lostNext env hints x < x := by
      intro hle hlt
      rw [hnext] at hle hlt
      split_ifs at hle hlt <;> omega
    have hgrid : lostNextGrid env x ≤ env.size → lostNext env hints x ≤ lostNextGrid env x := by
      intro hle
      unfold lostNext
      dsimp only
      split
      · next h _ =>
        have hmin := min_le_left (lostNextGrid env x) h
        rwa [if_neg (Nat.not_lt.mpr (hmin.trans hle))]
      · rw [if_neg (Nat.not_lt.mpr hle)]
    have hround : x + LOST_MIB ≤ 2 ^ 64 := by
      by_contra hmib
      have hzero : lostRoundUp x LOST_MIB = 0 := by
        have hsum : u64 (x + LOST_MIB - 1) < LOST_MIB := by
          unfold u64
          omega
        rw [lostRoundUp, Nat.div_eq_of_lt hsum, Nat.zero_mul]
      have hgridZero : lostNextGrid env x = 0 := by
        unfold lostNextGrid
        dsimp only
        rw [hzero]
        split_ifs <;> simp
      have hle := hgrid (hgridZero ▸ Nat.zero_le _)
      exact hbad (by omega) (by omega)
    refine ⟨hround, fun hss head hhead hbefore hwrap => ?_⟩
    by_contra hon
    obtain ⟨hvalue, hback⟩ := lostNextHead_wrapped hhead hround hbefore hwrap
    have hhead' : lostNextGrid env x ≤ lostNextHead x head := lostNextGrid_le_head hss hhead
    have hle := hgrid (by omega)
    exact hbad (by omega) (by omega)
  · intro hfits
    obtain ⟨m, hm⟩ := exists_least_offered env hints x
    refine ⟨m, hm, ?_⟩
    have hlow : lostNext env hints x ≤ env.size → m ≤ lostNext env hints x := fun hle =>
      hm.2 (lostNext_offered hh hfits hle)
    have hhigh : m ≤ env.size → lostNext env hints x ≤ m := fun hle =>
      lostNext_le_offered hh hm.1.2 hm.1.1 hle
    have hend : lostNext env hints x ≤ env.size + 1 := lostNext_le hints x
    split_ifs with hsize <;> omega

/-- In every scan that is reached the hints are strictly ascending sector offsets on the device, and
`lost_next` gives the least candidate exactly if no sum wraps to an offset on the device. -/
theorem LostReach.lostNext_least {s : LostScan} (hs : LostReach env s) {x : ℕ} (hx : x < 2 ^ 64) :
    LostHints env s.hints ∧ s.hints.Nodup ∧ (LostLeast env s.hints x ↔ env.NextFits x) :=
  ⟨hs.hints, hs.hints.sorted.imp Nat.ne_of_lt, lostNext_eq_least_iff hs.hints hx⟩

theorem lostZeroDisk_next_least :
    LostLeast lostZeroDisk (roverLostScanBegin lostZeroDisk).hints 1 := by
  have hreach : LostReach lostZeroDisk (roverLostScanBegin lostZeroDisk) := .refl
  refine (hreach.lostNext_least (by decide)).2.2.mpr ⟨by decide, fun _ head hhead hbefore => ?_⟩
  intro hwrap
  have hlt : lostHeadOf 1 head < 1 := hbefore
  have hcyl : LOST_CYLINDER < 2 ^ 32 := by decide
  omega

/-- From the last byte of the 64-bit range the search goes back to the start of the device. -/
theorem lostZeroDisk_next_back :
    LostReach lostZeroDisk (roverLostScanBegin lostZeroDisk)
      ∧ ¬ LostLeast lostZeroDisk (roverLostScanBegin lostZeroDisk).hints (2 ^ 64 - 1)
      ∧ lostNext lostZeroDisk (roverLostScanBegin lostZeroDisk).hints (2 ^ 64 - 1) = 0 := by
  have hreach : LostReach lostZeroDisk (roverLostScanBegin lostZeroDisk) := .refl
  refine ⟨hreach, fun hleast => ?_, by decide⟩
  have hfits := (lostNext_eq_least_iff hreach.hints (by decide)).mp hleast
  exact absurd hfits.1 (by decide)

end FsRover
