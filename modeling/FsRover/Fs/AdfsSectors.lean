import FsRover.Fs.AdfsMap
import Mathlib.Data.List.Pairwise

/-!
# The sectors of a fragment

## Main definitions

* `FsRover.adfsSectors` : the sectors of a fragment in order, zone by zone from its home zone on.
* `FsRover.adfsWanted` : the sector with a number, unless it is that of the boot block or past the disc.
* `FsRover.AdfsFirstZone` : no zone before that of the sector has a part of the fragment.

## Main results

* `FsRover.adfsMapLookup_iff` : the search comes to the sector exactly then.
-/

namespace FsRover

open Outcome Strips

/-- The strips of a fragment in a zone, as bits of the disc. -/
def adfsStrips (data : AdfsData) (fragId zone : ℕ) : List Strip :=
  (adfsOf fragId (adfsZoneRuns data zone)).map fun s => ⟨data.discBit zone s.start, s.len⟩

/-- The zones in the order in which a fragment is looked for: from its home zone on, and around. -/
def adfsZones (data : AdfsData) (fragId : ℕ) : List ℕ :=
  if data.nzones ≤ data.startZone fragId then []
  else (List.range' 0 data.nzones).map fun pass => (data.startZone fragId + pass) % data.nzones

/-- Blocks in a bit, and bits in a block; one of them is 1. -/
def AdfsData.perBit (data : AdfsData) : ℕ := 2 ^ data.map2blk.toNat

def AdfsData.perBlock (data : AdfsData) : ℕ := 2 ^ (-data.map2blk).toNat

/-- A strip of bits as a strip of sectors. -/
def AdfsData.scale (data : AdfsData) (s : Strip) : Strip :=
  coarse data.perBlock (fine data.perBit s)

/-- The sectors of a fragment in some zones. -/
def adfsSectorsIn (data : AdfsData) (fragId : ℕ) (zones : List ℕ) : List ℕ :=
  cells ((zones.flatMap (adfsStrips data fragId)).map data.scale)

/-- The sectors of a fragment in order. -/
def adfsSectors (data : AdfsData) (fragId : ℕ) : List ℕ :=
  adfsSectorsIn data fragId (adfsZones data fragId)

/-- The lengths of the runs of a fragment are multiples of a sector. -/
def AdfsWhole (data : AdfsData) (fragId : ℕ) : Prop :=
  ∀ zone < data.nzones, ∀ r ∈ adfsZoneRuns data zone, r.Of fragId → data.perBlock ∣ r.length

/-- A sector, unless it is the first of the disc or past it. -/
def AdfsData.legal (data : AdfsData) (sector : ℕ) : Option ℕ :=
  if sector ≠ 0 ∧ sector < data.blocks then some sector else none

/-- The sector with the number `k`, unless it is the first of the disc or past it. -/
def adfsWanted (data : AdfsData) (fragId k : ℕ) : Option ℕ :=
  ((adfsSectors data fragId)[k]?).bind data.legal

/-- What a search that wants `sector` comes to. -/
def adfsAnswer (fragId k : ℕ) : Option ℕ → Outcome GrubError ℕ
  | some sector => done sector
  | none => failed (adfsNotFound fragId k)

/-- The fragment has no sector in the zones before the one with its sector `k`. -/
def AdfsFirstZone (data : AdfsData) (fragId k : ℕ) : Prop :=
  ∀ before zone after, adfsZones data fragId = before ++ zone :: after →
    (adfsSectorsIn data fragId before).length ≤ k →
    k < (adfsSectorsIn data fragId (before ++ [zone])).length → adfsSectorsIn data fragId before = []

/-! ### Bits and blocks -/

section Scale

variable {data : AdfsData} {fragId : ℕ}

theorem AdfsData.perBlock_pos (data : AdfsData) : 0 < data.perBlock := Nat.two_pow_pos _

theorem AdfsData.perBit_pos (data : AdfsData) : 0 < data.perBit := Nat.two_pow_pos _

theorem AdfsData.perBit_or (data : AdfsData) : data.perBlock = 1 ∨ data.perBit = 1 := by
  rcases Int.le_total 0 data.map2blk with h | h
  · left
    rw [AdfsData.perBlock, Int.toNat_of_nonpos (by omega), pow_zero]
  · right
    rw [AdfsData.perBit, Int.toNat_of_nonpos h, pow_zero]

theorem adfsToBlocks_eq {bits : ℕ} :
    adfsToBlocks data.map2blk bits = bits * data.perBit / data.perBlock := by
  rw [adfsToBlocks, AdfsData.perBit, AdfsData.perBlock]
  split_ifs with h
  · rw [Nat.shiftLeft_eq, Int.toNat_of_nonpos (by omega : -data.map2blk ≤ 0), pow_zero, Nat.div_one]
  · rw [Nat.shiftRight_eq_div_pow, Int.toNat_of_nonpos (by omega : data.map2blk ≤ 0), pow_zero,
      Nat.mul_one]

theorem AdfsData.perBlock_le (data : AdfsData) : data.perBlock ≤ 2 ^ 10 := by
  have hsecsize := data.secsize_le
  have hmap2blk : data.map2blk = (data.log2bpmb : ℤ) - data.log2secsize := rfl
  exact Nat.pow_le_pow_right (by decide) (by omega)

theorem adfsToBits_eq {k : ℕ} (hk : k < 2 ^ 54) :
    adfsToBits data.map2blk k = k / data.perBit * data.perBlock := by
  have hle := data.perBlock_le
  have hmul : k * data.perBlock ≤ (2 ^ 54 - 1) * 2 ^ 10 := Nat.mul_le_mul (by omega) hle
  rw [AdfsData.perBlock] at hmul
  rw [adfsToBits, AdfsData.perBit, AdfsData.perBlock]
  split_ifs with h
  · rw [Nat.shiftRight_eq_div_pow, Int.toNat_of_nonpos (by omega : -data.map2blk ≤ 0), pow_zero,
      Nat.mul_one]
  · rw [Nat.shiftLeft_eq, u64_of_lt (by omega), Int.toNat_of_nonpos (by omega : data.map2blk ≤ 0),
      pow_zero, Nat.div_one]

theorem adfsToBlocks_toBits_le {k : ℕ} (hk : k < 2 ^ 54) :
    adfsToBlocks data.map2blk (adfsToBits data.map2blk k) ≤ k := by
  rw [adfsToBits_eq hk, adfsToBlocks_eq, Nat.mul_right_comm, Nat.mul_div_cancel _ data.perBlock_pos]
  exact Nat.div_mul_le_self _ _

theorem adfsToBlocks_add {a b : ℕ} (h : data.perBlock ∣ a) : adfsToBlocks data.map2blk (a + b)
    = adfsToBlocks data.map2blk a + adfsToBlocks data.map2blk b := by
  obtain ⟨m, rfl⟩ := h
  rw [adfsToBlocks_eq, adfsToBlocks_eq, adfsToBlocks_eq, Nat.add_mul, Nat.mul_assoc,
    Nat.mul_add_div data.perBlock_pos, Nat.mul_div_cancel_left _ data.perBlock_pos]

/-- The sector with the number `k` begins in the bit that the search asks for. -/
theorem getElem?_scale {strips : List Strip} (h : ∀ s ∈ strips, data.perBlock ∣ s.len) {k : ℕ}
    (hk : k < 2 ^ 54) : (cells (strips.map data.scale))[k]?
      = ((cells strips)[adfsToBits data.map2blk k]?).map fun b => adfsToBlocks data.map2blk b
        + (k - adfsToBlocks data.map2blk (adfsToBits data.map2blk k)) := by
  have hscale : strips.map data.scale
      = (strips.map (fine data.perBit)).map (coarse data.perBlock) := by
    rw [List.map_map]
    rfl
  have hdvd : ∀ s ∈ strips.map (fine data.perBit), data.perBlock ∣ s.len := by
    intro s hs
    obtain ⟨t, ht, rfl⟩ := List.mem_map.mp hs
    exact Dvd.dvd.mul_right (h t ht) _
  rw [hscale, getElem?_coarse data.perBlock_pos hdvd, getElem?_fine data.perBit_pos, Option.map_map,
    adfsToBits_eq hk, adfsToBlocks_eq]
  rcases data.perBit_or with hone | hone
  · rw [hone, Nat.mul_one, Nat.mul_one, Nat.div_one]
    refine congrArg (fun f => Option.map f _) (funext fun b => ?_)
    rw [Function.comp_apply, Nat.div_one, adfsToBlocks_eq, hone, Nat.div_one, ← Nat.mod_eq_sub_div_mul]
  · rw [hone, Nat.div_one, Nat.div_one, Nat.mul_one, Nat.mul_div_cancel _ data.perBlock_pos,
      Nat.sub_self]
    refine congrArg (fun f => Option.map f _) (funext fun b => ?_)
    rw [Function.comp_apply, Nat.mod_one, adfsToBlocks_eq, hone]
    rfl

theorem length_scale {strips : List Strip} (h : ∀ s ∈ strips, data.perBlock ∣ s.len) :
    (cells (strips.map data.scale)).length = adfsToBlocks data.map2blk (cells strips).length := by
  have hscale : strips.map data.scale
      = (strips.map (fine data.perBit)).map (coarse data.perBlock) := by
    rw [List.map_map]
    rfl
  have hdvd : ∀ s ∈ strips.map (fine data.perBit), data.perBlock ∣ s.len := by
    intro s hs
    obtain ⟨t, ht, rfl⟩ := List.mem_map.mp hs
    exact Dvd.dvd.mul_right (h t ht) _
  rw [hscale, adfsToBlocks_eq, ← length_fine, ← length_coarse hdvd,
    Nat.mul_div_cancel _ data.perBlock_pos]

theorem dvd_length_cells {strips : List Strip} {q : ℕ} (h : ∀ s ∈ strips, q ∣ s.len) :
    q ∣ (cells strips).length := by
  induction strips with
  | nil => exact ⟨0, rfl⟩
  | cons s ss ih =>
    obtain ⟨hs, hss⟩ := List.forall_mem_cons.mp h
    rw [length_cells_cons]
    exact Nat.dvd_add hs (ih hss)

end Scale

/-! ### The search -/

section Search

variable {data : AdfsData} {fragId k : ℕ}

theorem AdfsData.discBit_add (data : AdfsData) {zone bit : ℕ} (h : adfsStartbit zone ≤ bit) :
    data.discBit zone bit + 512 = zone * data.zoneSize + bit := by
  have hzone := data.zone_gt
  rw [AdfsData.discBit, adfsStartbit] at *
  by_cases hzero : zone = 0
  · subst hzero
    simp only [ne_eq, not_true_eq_false, if_false] at *
    omega
  · have hmul : 1 * data.zoneSize ≤ zone * data.zoneSize :=
      Nat.mul_le_mul_right _ (Nat.pos_of_ne_zero hzero)
    simp only [ne_eq, hzero, not_false_eq_true, if_true] at *
    omega

/-- The strips are those of the zone, moved to where the zone is on the disc. -/
theorem getElem?_adfsStrips {zone off : ℕ} : (cells (adfsStrips data fragId zone))[off]?
    = ((cells (adfsOf fragId (adfsZoneRuns data zone)))[off]?).map (data.discBit zone) := by
  refine getElem?_move fun s hs => ?_
  obtain ⟨r, hr, rfl⟩ := List.mem_map.mp hs
  have hbounds := (adfsRuns_bounds (List.mem_of_mem_filter hr)).1
  dsimp only
  omega

theorem length_adfsStrips {zone : ℕ} : (cells (adfsStrips data fragId zone)).length
    = (cells (adfsOf fragId (adfsZoneRuns data zone))).length :=
  length_move

/-- What the search comes to in a zone that has the bit `b` of the disc in the place `mapoff`. -/
def adfsBlockAt (data : AdfsData) (fragId k b mapoff : ℕ) : Outcome GrubError ℕ :=
  adfsAnswer fragId k (data.legal (adfsToBlocks data.map2blk b
    + (k - adfsToBlocks data.map2blk mapoff)))

/-- The loop over zones passes those that do not reach to the place, and ends in the one that does. -/
theorem adfsMapPasses_spec {start n pass mapoff : ℕ} :
    let zones := (List.range' pass n).map fun pass => (start + pass) % data.nzones
    ((cells (zones.flatMap (adfsStrips data fragId))).length ≤ mapoff
      ∧ adfsMapPasses data fragId k start n pass mapoff = failed (adfsNotFound fragId k))
    ∨ ∃ before zone after off b, zones = before ++ zone :: after
      ∧ mapoff = (cells (before.flatMap (adfsStrips data fragId))).length + off
      ∧ (cells (adfsStrips data fragId zone))[off]? = some b
      ∧ adfsMapPasses data fragId k start n pass mapoff = adfsBlockAt data fragId k b off := by
  dsimp only
  induction n generalizing pass mapoff with
  | zero => exact Or.inl ⟨Nat.zero_le _, rfl⟩
  | succ n ih =>
    rw [List.range'_succ, List.map_cons, List.flatMap_cons, cells_append, List.length_append,
      adfsMapPasses, adfsLookupZone_eq, done_bind]
    have hseek := @seek_spec (adfsOf fragId (adfsZoneRuns data ((start + pass) % data.nzones))) mapoff
    cases hcase : seek (adfsOf fragId (adfsZoneRuns data ((start + pass) % data.nzones))) mapoff with
    | inr found =>
      rw [hcase] at hseek
      refine Or.inr ⟨[], _, _, mapoff, data.discBit ((start + pass) % data.nzones) found, rfl,
        (Nat.zero_add _).symm, ?_, ?_⟩
      · rw [getElem?_adfsStrips, hseek]
        rfl
      · rw [adfsBlockAt, AdfsData.legal]
        dsimp only
        split_ifs <;> rfl
    | inl rest =>
      rw [hcase] at hseek
      have hrest : mapoff = (cells (adfsStrips data fragId ((start + pass) % data.nzones))).length
          + rest := hseek.trans (by rw [length_adfsStrips])
      dsimp only
      rcases @ih (pass + 1) rest with
        ⟨hle, hfail⟩ | ⟨before, zone, after, off, b, hzones, hoff, hb, hrun⟩
      · exact Or.inl ⟨by omega, hfail⟩
      · refine Or.inr ⟨(start + pass) % data.nzones :: before, zone, after, off, b, ?_, ?_, hb,
          hrun⟩
        · rw [hzones, List.cons_append]
        · rw [List.flatMap_cons, cells_append, List.length_append]
          omega

/-! ### Where the strips are -/

/-- The bits of the disc. -/
def AdfsData.discBits (data : AdfsData) : ℕ := data.discSize / 2 ^ data.log2bpmb

/-- A strip of a zone lies in the part of the disc that the zone stands for. -/
theorem adfsStrips_bounds {zone : ℕ} (hzone : zone < data.nzones) {s : Strip}
    (h : s ∈ adfsStrips data fragId zone) : zone * data.zoneSize ≤ s.start + 480
      ∧ s.start + s.len + 480 ≤ (zone + 1) * data.zoneSize ∧ s.start + s.len ≤ data.discBits := by
  obtain ⟨t, ht, rfl⟩ := List.mem_map.mp h
  obtain ⟨r, hr, rfl⟩ := List.mem_map.mp ht
  obtain ⟨hstart, -, hend⟩ := adfsRuns_bounds (List.mem_of_mem_filter hr)
  have hbit := data.discBit_add hstart
  have hstartbit := @adfsStartbit_ge zone
  have hendbit := @AdfsData.endbit_bounds data zone
  have hlast := data.endbit_eq
  rw [← AdfsData.discBits] at hlast
  rw [Nat.add_mul]
  dsimp only
  refine ⟨by omega, by omega, ?_⟩
  by_cases hzones : zone + 1 = data.nzones
  · have hendzone : data.endbit zone = data.lastZoneEndbit := if_pos hzones
    obtain rfl : zone = data.nzones - 1 := by omega
    omega
  · have hmul : (zone + 1) * data.zoneSize ≤ (data.nzones - 1) * data.zoneSize :=
      Nat.mul_le_mul_right _ (by omega)
    have hgt := data.endbit_gt
    rw [Nat.add_mul] at hmul
    omega

theorem adfsStrips_apart {f g zone zone' : ℕ} (hzone : zone < data.nzones)
    (hzone' : zone' < data.nzones) (hne : zone ≠ zone') {s t : Strip}
    (hs : s ∈ adfsStrips data f zone) (ht : t ∈ adfsStrips data g zone') : Apart s t := by
  obtain ⟨hslow, hshigh, -⟩ := adfsStrips_bounds hzone hs
  obtain ⟨htlow, hthigh, -⟩ := adfsStrips_bounds hzone' ht
  rcases Nat.lt_or_gt_of_ne hne with hlt | hlt
  · have hmul : (zone + 1) * data.zoneSize ≤ zone' * data.zoneSize := Nat.mul_le_mul_right _ hlt
    exact Or.inl (by omega)
  · have hmul : (zone' + 1) * data.zoneSize ≤ zone * data.zoneSize := Nat.mul_le_mul_right _ hlt
    exact Or.inr (by omega)

theorem adfsRun_apart {zone : ℕ} {r s : AdfsRun} (hr : r ∈ adfsZoneRuns data zone)
    (h : r.start + r.length ≤ s.start) :
    Apart ⟨data.discBit zone r.start, r.length⟩ ⟨data.discBit zone s.start, s.length⟩ := by
  have hstart := (adfsRuns_bounds hr).1
  have hbit := data.discBit_add hstart
  have hbit' := @AdfsData.discBit_add data zone s.start (by omega)
  refine Or.inl ?_
  dsimp only
  omega

/-- One of two runs of a zone ends before the other begins. -/
theorem adfsZoneRuns_apart {zone : ℕ} {r s : AdfsRun} (hr : r ∈ adfsZoneRuns data zone)
    (hs : s ∈ adfsZoneRuns data zone) (hne : r ≠ s) :
    r.start + r.length ≤ s.start ∨ s.start + s.length ≤ r.start := by
  have hruns : (adfsZoneRuns data zone).Pairwise fun r s => r.start + r.length ≤ s.start :=
    adfsRuns_pairwise
  have hboth : (adfsZoneRuns data zone).Pairwise fun r s : AdfsRun =>
      r.start + r.length ≤ s.start ∨ s.start + s.length ≤ r.start := hruns.imp fun h => Or.inl h
  have hsymm : Std.Symm fun r s : AdfsRun =>
      r.start + r.length ≤ s.start ∨ s.start + s.length ≤ r.start := ⟨fun _ _ => Or.symm⟩
  exact hboth.forall hr hs hne

theorem adfsStrips_pairwise {zone : ℕ} : (adfsStrips data fragId zone).Pairwise Apart := by
  have hruns : (adfsZoneRuns data zone).Pairwise fun r s => r.start + r.length ≤ s.start :=
    adfsRuns_pairwise
  rw [adfsStrips, adfsOf, List.map_map]
  refine List.pairwise_map.mpr ((hruns.filter _).imp_of_mem fun {r s} hr _ hrs => ?_)
  exact adfsRun_apart (List.mem_of_mem_filter hr) hrs

theorem adfsStrips_apart_of_ne {f g zone : ℕ} (hne : f ≠ g) {s t : Strip}
    (hs : s ∈ adfsStrips data f zone) (ht : t ∈ adfsStrips data g zone) : Apart s t := by
  obtain ⟨_, hrun, rfl⟩ := List.mem_map.mp hs
  obtain ⟨r, hr, rfl⟩ := List.mem_map.mp hrun
  obtain ⟨_, hrun', rfl⟩ := List.mem_map.mp ht
  obtain ⟨r', hr', rfl⟩ := List.mem_map.mp hrun'
  rw [List.mem_filter, decide_eq_true_eq] at hr hr'
  have hrne : r ≠ r' := fun h => hne (hr.2.2.symm.trans ((congrArg AdfsRun.id h).trans hr'.2.2))
  rcases adfsZoneRuns_apart hr.1 hr'.1 hrne with h | h
  · exact adfsRun_apart hr.1 h
  · exact (adfsRun_apart hr'.1 h).symm

theorem adfsZones_lt {zone : ℕ} (h : zone ∈ adfsZones data fragId) : zone < data.nzones := by
  rw [adfsZones] at h
  split_ifs at h
  · cases h
  · obtain ⟨pass, -, rfl⟩ := List.mem_map.mp h
    exact Nat.mod_lt _ data.nzones_pos

theorem adfsZones_nodup : (adfsZones data fragId).Nodup := by
  rw [adfsZones]
  split_ifs with hstart
  · exact List.nodup_nil
  · have hle : ∀ p p', p < data.nzones →
        (data.startZone fragId + p) % data.nzones = (data.startZone fragId + p') % data.nzones →
        p ≤ p' := by
      intro p p' hp heq
      have hmod := Nat.sub_mod_eq_zero_of_mod_eq heq
      rw [Nat.add_sub_add_left, Nat.mod_eq_of_lt (by omega)] at hmod
      omega
    refine List.Nodup.map_on (fun p hp p' hp' heq => ?_) List.nodup_range'
    rw [List.mem_range'_1] at hp hp'
    exact Nat.le_antisymm (hle p p' (by omega) heq) (hle p' p (by omega) heq.symm)

theorem adfsStrips_whole (hwhole : AdfsWhole data fragId) {zones : List ℕ}
    (hzones : ∀ zone ∈ zones, zone < data.nzones) :
    ∀ s ∈ zones.flatMap (adfsStrips data fragId), data.perBlock ∣ s.len := by
  intro s hs
  obtain ⟨zone, hzone, hs⟩ := List.mem_flatMap.mp hs
  obtain ⟨_, hrun, rfl⟩ := List.mem_map.mp hs
  obtain ⟨r, hr, rfl⟩ := List.mem_map.mp hrun
  rw [List.mem_filter, decide_eq_true_eq] at hr
  exact hwhole zone (hzones zone hzone) r hr.1 hr.2

theorem adfsStrips_flatMap_pairwise : ((adfsZones data fragId).flatMap
    (adfsStrips data fragId)).Pairwise Apart := by
  refine List.pairwise_flatMap.mpr ⟨fun zone _ => adfsStrips_pairwise, ?_⟩
  refine (@adfsZones_nodup data fragId).imp_of_mem fun {zone zone'} hzone hzone' hne s hs t ht => ?_
  exact adfsStrips_apart (adfsZones_lt hzone) (adfsZones_lt hzone') hne hs ht

theorem AdfsData.apart_scale (data : AdfsData) {s t : Strip} (hs : data.perBlock ∣ s.len)
    (ht : data.perBlock ∣ t.len) (h : Apart s t) : Apart (data.scale s) (data.scale t) :=
  Apart.coarse data.perBlock_pos (Dvd.dvd.mul_right hs _) (Dvd.dvd.mul_right ht _) h.fine

/-- A sector is in one place of a fragment only. -/
theorem adfsSectors_nodup (hwhole : AdfsWhole data fragId) : (adfsSectors data fragId).Nodup := by
  have hdvd := adfsStrips_whole hwhole fun zone (hzone : zone ∈ adfsZones data fragId) =>
    adfsZones_lt hzone
  refine nodup_cells (List.pairwise_map.mpr ?_)
  exact adfsStrips_flatMap_pairwise.imp_of_mem fun {s t} hs ht hst =>
    data.apart_scale (hdvd s hs) (hdvd t ht) hst

/-- A sector is in one fragment only. -/
theorem adfsSectors_disjoint {f g : ℕ} (hne : f ≠ g) (hf : AdfsWhole data f) (hg : AdfsWhole data g)
    {sector : ℕ} (h : sector ∈ adfsSectors data f) : sector ∉ adfsSectors data g := by
  intro h'
  obtain ⟨_, hscaled, hin⟩ := mem_cells.mp h
  obtain ⟨s, hstrip, rfl⟩ := List.mem_map.mp hscaled
  obtain ⟨_, hscaled', hin'⟩ := mem_cells.mp h'
  obtain ⟨t, hstrip', rfl⟩ := List.mem_map.mp hscaled'
  have hsdvd := adfsStrips_whole hf (fun zone hzone => adfsZones_lt hzone) s hstrip
  have htdvd := adfsStrips_whole hg (fun zone hzone => adfsZones_lt hzone) t hstrip'
  obtain ⟨zone, hzone, hs⟩ := List.mem_flatMap.mp hstrip
  obtain ⟨zone', hzone', ht⟩ := List.mem_flatMap.mp hstrip'
  have hapart : Apart s t := by
    by_cases heq : zone = zone'
    · exact adfsStrips_apart_of_ne hne hs (heq ▸ ht)
    · exact adfsStrips_apart (adfsZones_lt hzone) (adfsZones_lt hzone') heq hs ht
  exact (data.apart_scale hsdvd htdvd hapart).not_mem hin hin'

theorem adfsSectors_lt {sector : ℕ} (h : sector ∈ adfsSectors data fragId) :
    sector < data.blocks := by
  obtain ⟨_, hscaled, -, hlt⟩ := mem_cells.mp h
  obtain ⟨s, hstrip, rfl⟩ := List.mem_map.mp hscaled
  obtain ⟨zone, hzone, hs⟩ := List.mem_flatMap.mp hstrip
  have hend := (adfsStrips_bounds (adfsZones_lt hzone) hs).2.2
  have hscaled : data.discBits * data.perBit / data.perBlock ≤ data.blocks := by
    have hmap2blk : data.map2blk = (data.log2bpmb : ℤ) - data.log2secsize := rfl
    rw [AdfsData.discBits, AdfsData.blocks, AdfsData.sectorSize]
    rcases Nat.le_total data.log2secsize data.log2bpmb with hle | hle
    · have hsplit : 2 ^ data.log2bpmb = 2 ^ data.log2secsize * data.perBit := by
        rw [AdfsData.perBit, ← pow_add]
        exact congrArg (2 ^ ·) (by omega)
      have hone : data.perBlock = 1 := by
        rw [AdfsData.perBlock, Int.toNat_of_nonpos (by omega), pow_zero]
      rw [hone, Nat.div_one, hsplit, ← Nat.div_div_eq_div_mul]
      exact Nat.div_mul_le_self _ _
    · have hsplit : 2 ^ data.log2secsize = 2 ^ data.log2bpmb * data.perBlock := by
        rw [AdfsData.perBlock, ← pow_add]
        exact congrArg (2 ^ ·) (by omega)
      have hone : data.perBit = 1 := by
        rw [AdfsData.perBit, Int.toNat_of_nonpos (by omega), pow_zero]
      rw [hone, Nat.mul_one, hsplit, Nat.div_div_eq_div_mul]
  have hsum : s.start * data.perBit / data.perBlock + s.len * data.perBit / data.perBlock
      ≤ data.discBits * data.perBit / data.perBlock :=
    Nat.div_add_div_le_add_div.trans
      (Nat.div_le_div_right (by rw [← Nat.add_mul]; exact Nat.mul_le_mul_right _ hend))
  exact hlt.trans_le (hsum.trans hscaled)

theorem length_adfsSectors_le (hwhole : AdfsWhole data fragId) :
    (adfsSectors data fragId).length ≤ data.blocks :=
  length_le_of_nodup (adfsSectors_nodup hwhole) fun _ h => adfsSectors_lt h

/-! ### What a search comes to -/

theorem adfsSectorsIn_append {before after : List ℕ} : adfsSectorsIn data fragId (before ++ after)
    = adfsSectorsIn data fragId before ++ adfsSectorsIn data fragId after := by
  rw [adfsSectorsIn, List.flatMap_append, List.map_append, cells_append, adfsSectorsIn, adfsSectorsIn]

theorem getElem?_adfsSectorsIn (hwhole : AdfsWhole data fragId) {zones : List ℕ}
    (hzones : ∀ zone ∈ zones, zone < data.nzones) (hk : k < 2 ^ 54) :
    (adfsSectorsIn data fragId zones)[k]?
      = ((cells (zones.flatMap (adfsStrips data fragId)))[adfsToBits data.map2blk k]?).map fun b =>
        adfsToBlocks data.map2blk b + (k - adfsToBlocks data.map2blk (adfsToBits data.map2blk k)) :=
  getElem?_scale (adfsStrips_whole hwhole hzones) hk

/-- The search finds that there are fewer sectors, or it comes to the sector moved by all sectors in
the zones before. -/
theorem adfsMapLookup_spec (hwhole : AdfsWhole data fragId) (hk : k < 2 ^ 54) :
    ((adfsSectors data fragId).length ≤ k
      ∧ adfsMapLookup data fragId k = failed (adfsNotFound fragId k))
    ∨ ∃ before zone after sector, adfsZones data fragId = before ++ zone :: after
      ∧ (adfsSectorsIn data fragId before).length ≤ k
      ∧ k < (adfsSectorsIn data fragId (before ++ [zone])).length
      ∧ (adfsSectors data fragId)[k]? = some sector
      ∧ adfsMapLookup data fragId k = adfsAnswer fragId k
        (data.legal (sector + (adfsSectorsIn data fragId before).length)) := by
  have hget := fun zones hzones => @getElem?_adfsSectorsIn data fragId k hwhole zones hzones hk
  by_cases hstart : data.nzones ≤ data.startZone fragId
  · have hnone : adfsZones data fragId = [] := if_pos hstart
    rw [adfsSectors, hnone, adfsMapLookup, if_pos hstart]
    exact Or.inl ⟨Nat.zero_le k, rfl⟩
  have hzones : adfsZones data fragId = (List.range' 0 data.nzones).map fun pass =>
    (data.startZone fragId + pass) % data.nzones := if_neg hstart
  have hall := hget (adfsZones data fragId) fun zone hzone => adfsZones_lt hzone
  rw [adfsMapLookup, if_neg hstart]
  rcases @adfsMapPasses_spec data fragId k (data.startZone fragId) data.nzones 0
      (adfsToBits data.map2blk k) with
    ⟨hle, hrun⟩ | ⟨before, zone, after, off, b, hsplit, hoff, hb, hrun⟩
  · rw [← hzones] at hle
    refine Or.inl ⟨?_, hrun⟩
    rw [List.getElem?_eq_none hle] at hall
    exact List.getElem?_eq_none_iff.mp hall
  · rw [← hzones] at hsplit
    have hmem : ∀ z ∈ before ++ [zone], z < data.nzones := by
      intro z hz
      refine @adfsZones_lt data fragId z (hsplit ▸ ?_)
      rw [List.append_cons]
      exact List.mem_append_left _ hz
    have hbefore := adfsStrips_whole hwhole fun z hz => hmem z (List.mem_append_left _ hz)
    have hcell : (cells ((before ++ [zone]).flatMap
        (adfsStrips data fragId)))[adfsToBits data.map2blk k]? = some b := by
      rw [List.flatMap_append, cells_append, hoff,
        List.getElem?_append_right (Nat.le_add_right _ _), Nat.add_sub_cancel_left,
        List.flatMap_singleton]
      exact hb
    have hsector := hget (before ++ [zone]) hmem
    rw [hcell, Option.map_some] at hsector
    have hlt := (List.getElem?_eq_some_iff.mp hsector).1
    -- the sectors before are skipped in the place that is found, and counted again
    have hskip : adfsToBlocks data.map2blk (adfsToBits data.map2blk k)
        = (adfsSectorsIn data fragId before).length + adfsToBlocks data.map2blk off := by
      rw [hoff, adfsToBlocks_add (dvd_length_cells hbefore), adfsSectorsIn, length_scale hbefore]
    have hle := @adfsToBlocks_toBits_le data k hk
    refine Or.inr ⟨before, zone, after, adfsToBlocks data.map2blk b
      + (k - adfsToBlocks data.map2blk (adfsToBits data.map2blk k)), hsplit, by omega, hlt, ?_,
      hrun.trans ?_⟩
    · rw [adfsSectors, hsplit, List.append_cons, adfsSectorsIn_append, List.getElem?_append_left hlt]
      exact hsector
    · rw [adfsBlockAt]
      exact congrArg (fun sector => adfsAnswer fragId k (data.legal sector)) (by omega)

theorem adfsAnswer_inj {a b : Option ℕ} (h : adfsAnswer fragId k a = adfsAnswer fragId k b) :
    a = b := by
  cases a <;> cases b <;> first | rfl | cases h
  rfl

theorem AdfsData.legal_add (data : AdfsData) {sector d : ℕ} (hsector : sector < data.blocks)
    (hd : d < data.blocks) (h : data.legal (sector + d) = data.legal sector) : d = 0 := by
  by_contra hne
  rw [AdfsData.legal, AdfsData.legal] at h
  by_cases hzero : sector = 0
  · rw [hzero, Nat.zero_add, if_pos ⟨hne, hd⟩, if_neg (fun h => h.1 rfl)] at h
    cases h
  · rw [if_pos (⟨hzero, hsector⟩ : sector ≠ 0 ∧ _)] at h
    split_ifs at h
    have heq := Option.some.inj h
    omega

/-- The search comes to the sector if and only if the fragment has none in the zones before. -/
theorem adfsMapLookup_iff (hwhole : AdfsWhole data fragId) (hk : k < 2 ^ 54) :
    adfsMapLookup data fragId k = adfsAnswer fragId k (adfsWanted data fragId k)
      ↔ AdfsFirstZone data fragId k := by
  rcases adfsMapLookup_spec hwhole hk with
    ⟨hle, hrun⟩ | ⟨before, zone, after, sector, hsplit, hlow, hhigh, hsector, hrun⟩
  · rw [hrun, adfsWanted, List.getElem?_eq_none hle]
    refine iff_of_true rfl fun before zone after hsplit _ hlt => ?_
    have hprefix : (adfsSectorsIn data fragId (before ++ [zone])).length
        ≤ (adfsSectors data fragId).length := by
      rw [adfsSectors, hsplit, List.append_cons before zone after,
        @adfsSectorsIn_append data fragId (before ++ [zone]) after, List.length_append]
      exact Nat.le_add_right _ _
    omega
  · have hdisc : sector < data.blocks := adfsSectors_lt (List.mem_of_getElem? hsector)
    have hlength := length_adfsSectors_le hwhole
    have hk := (List.getElem?_eq_some_iff.mp hsector).1
    rw [hrun, adfsWanted, hsector, Option.bind_some]
    constructor
    · intro heq before' zone' after' hsplit' hlow' hhigh'
      have hzero : adfsSectorsIn data fragId before = [] := List.eq_nil_of_length_eq_zero
        (data.legal_add hdisc (by omega) (adfsAnswer_inj heq))
      rcases List.append_eq_append_iff.mp (hsplit.symm.trans hsplit') with
        ⟨between, hbefore, hrest⟩ | ⟨between, hbefore, -⟩
      · cases between with
        | nil => rw [hbefore, List.append_nil, hzero]
        | cons z rest =>
          obtain ⟨rfl, -⟩ := List.cons.inj hrest
          rw [hbefore, List.append_cons, adfsSectorsIn_append, List.length_append] at hlow'
          omega
      · rw [hbefore, adfsSectorsIn_append] at hzero
        exact (List.append_eq_nil_iff.mp hzero).1
    · intro hfirst
      rw [hfirst before zone after hsplit hlow hhigh, List.length_nil, Nat.add_zero]

end Search

end FsRover
