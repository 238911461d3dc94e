import FsRover.Io.Ffu

/-!
# The map of a full flash update

The write descriptors, read as a list, and what both walks over them make of it: the payload offsets
are the sums of the sizes before them, no location leaves the disk, and looking a disk block up in
the sorted map finds the last descriptor that names it.

## Main definitions

* `FsRover.FfuDescriptor`, `FsRover.ffuDescriptors` : the write descriptors.
* `FsRover.FfuNames`, `FsRover.FfuLast` : a descriptor names a disk block, and is the last to.
-/

namespace FsRover

open Guards

/-- A write descriptor: the size of its payload block, where the store states it, and its disk
locations, each an access method and an index. -/
structure FfuDescriptor where
  size : ℕ
  locations : List (ℕ × ℕ)
  deriving DecidableEq, Repr

/-- The `nloc` disk locations at `p`. -/
def ffuLocations (buf : Buf) : ℕ → ℕ → List (ℕ × ℕ)
  | 0, _ => []
  | nloc + 1, p =>
    (lostLe32 buf p, lostLe32 buf (p + 4)) :: ffuLocations buf nloc (p + FFU_DISK_LOCATION_SIZE)

/-- The `ndesc` write descriptors at `p`. -/
def ffuDescriptors (compressed : Bool) (buf : Buf) : ℕ → ℕ → List FfuDescriptor
  | 0, _ => []
  | ndesc + 1, p =>
    let nloc := lostLe32 buf p
    let q := if compressed then p + FFU_BLOCK_DATA_ENTRY_SIZE + 4 else p + FFU_BLOCK_DATA_ENTRY_SIZE
    { size := if compressed then lostLe32 buf (p + FFU_BLOCK_DATA_ENTRY_SIZE) else 0
      locations := ffuLocations buf nloc q }
      :: ffuDescriptors compressed buf ndesc (q + FFU_DISK_LOCATION_SIZE * nloc)

/-- The disk block of a location, counted from the start of the disk or from its end. -/
def ffuDiskBlock (totalBlocks : ℕ) (loc : ℕ × ℕ) : ℕ :=
  if loc.1 = FFU_DISK_BEGIN then loc.2 else totalBlocks - 1 - loc.2

/-- Descriptor `k` names the disk block `v`. -/
def FfuNames (totalBlocks : ℕ) (ds : List FfuDescriptor) (v k : ℕ) : Prop :=
  ∃ d, ds[k]? = some d ∧ ∃ loc ∈ d.locations, ffuDiskBlock totalBlocks loc = v

/-- Descriptor `k` is the last one that names the disk block `v`. -/
def FfuLast (totalBlocks : ℕ) (ds : List FfuDescriptor) (v k : ℕ) : Prop :=
  FfuNames totalBlocks ds v k ∧ ∀ k', FfuNames totalBlocks ds v k' → k' ≤ k

/-- All locations of the descriptors lie on a disk of that many blocks. -/
def FfuOnDisk (totalBlocks : ℕ) (ds : List FfuDescriptor) : Prop :=
  ∀ d ∈ ds, ∀ loc ∈ d.locations, loc.2 < totalBlocks

/-! ### The scan -/

section Scan

variable {compressed : Bool} {buf : Buf} {len : ℕ}

theorem length_ffuDescriptors : ∀ ndesc p, (ffuDescriptors compressed buf ndesc p).length = ndesc
  | 0, _ => rfl
  | ndesc + 1, p => by
    simp only [ffuDescriptors, List.length_cons]
    rw [length_ffuDescriptors]

theorem ffuDescriptors_size_lt : ∀ {ndesc p : ℕ} {d : FfuDescriptor},
    d ∈ ffuDescriptors compressed buf ndesc p → d.size < 2 ^ 32
  | 0, p, d, h => by cases h
  | ndesc + 1, p, d, h => by
    simp only [ffuDescriptors, List.mem_cons] at h
    rcases h with rfl | h
    · simp only
      split_ifs
      · exact lostLe32_lt _ _
      · exact Nat.two_pow_pos 32
    · exact ffuDescriptors_size_lt h

/-- One round of `ffu_scan_descriptors`. -/
theorem ffuScanFrom_succ {ndesc p payload : ℕ} {scan : FfuScan} {found : FfuScanned}
    (h : ffuScanFrom compressed buf len (ndesc + 1) p payload scan = .ok found) :
    ∃ d q scan' rest, ffuDescriptors compressed buf (ndesc + 1) p
        = d :: ffuDescriptors compressed buf ndesc q
      ∧ (∃ nloc p', d.locations = ffuLocations buf nloc p'
        ∧ ffuScanLocations buf nloc p' scan = .ok scan')
      ∧ ffuScanFrom compressed buf len ndesc q (u64 (payload + d.size)) scan' = .ok rest
      ∧ found = { rest with poff := payload :: rest.poff } := by
  simp only [ffuScanFrom, bind_eq_ok_iff, refuseIf_eq_ok_iff, exists_const] at h
  obtain ⟨-, -, -, scan', hscan, rest, hrest, hfound⟩ := h
  refine ⟨_, _, scan', rest, rfl, ⟨_, _, rfl, ?_⟩, ?_, (Except.ok.inj hfound).symm⟩
  · exact hscan
  · exact hrest

/-- The payload offsets are the sums of the sizes before them. -/
theorem ffuScanFrom_poff : ∀ {ndesc p payload : ℕ} {scan : FfuScan} {found : FfuScanned},
    ffuScanFrom compressed buf len ndesc p payload scan = .ok found →
      payload + 2 ^ 32 * ndesc ≤ 2 ^ 64 → ∀ k ≤ ndesc, found.poff.getD k 0
        = payload + (((ffuDescriptors compressed buf ndesc p).take k).map FfuDescriptor.size).sum
  | 0, p, payload, scan, found, h, _, k, hk => by
    obtain rfl := Except.ok.inj h
    obtain rfl : k = 0 := by omega
    rfl
  | ndesc + 1, p, payload, scan, found, h, hroom, k, hk => by
    obtain ⟨d, q, scan', rest, hd, -, hrest, rfl⟩ := ffuScanFrom_succ h
    have hsize : d.size < 2 ^ 32 :=
      @ffuDescriptors_size_lt compressed buf (ndesc + 1) p _ (hd ▸ List.mem_cons_self)
    rw [hd]
    cases k with
    | zero => rfl
    | succ k =>
      rw [u64_of_lt (by omega)] at hrest
      have hrec := ffuScanFrom_poff hrest (by omega) k (by omega)
      simp only [List.getD_cons_succ, List.take_succ_cons, List.map_cons, List.sum_cons]
      omega

/-- The scan has seen a location as far out as `loc`. -/
def FfuScan.Reaches (scan : FfuScan) (loc : ℕ × ℕ) : Prop :=
  (loc.1 = FFU_DISK_BEGIN ∧ scan.hasStart = true ∧ loc.2 ≤ scan.maxStart)
    ∨ (loc.1 = FFU_DISK_END ∧ scan.hasEnd = true ∧ loc.2 ≤ scan.maxEnd)

/-- A location scanned is reached, and the ones before stay reached. -/
theorem ffuScanLocation_reaches {scan scan' : FfuScan} {method index : ℕ}
    (h : ffuScanLocation scan method index = .ok scan') :
    scan'.Reaches (method, index) ∧ ∀ loc, scan.Reaches loc → scan'.Reaches loc := by
  simp only [ffuScanLocation] at h
  split_ifs at h with hbegin hnew hend hnew
  · obtain rfl := Except.ok.inj h
    refine ⟨Or.inl ⟨hbegin, rfl, Nat.le_refl _⟩, fun loc hloc => ?_⟩
    rcases hloc with ⟨hm, hs, hle⟩ | hloc
    · refine Or.inl ⟨hm, rfl, ?_⟩
      rw [hs] at hnew
      have hlt := hnew.resolve_left Bool.noConfusion
      exact Nat.le_of_lt (Nat.lt_of_le_of_lt hle hlt)
    · exact Or.inr hloc
  · obtain rfl := Except.ok.inj h
    refine ⟨Or.inl ⟨hbegin, rfl, ?_⟩, fun loc hloc => ?_⟩
    · exact Nat.le_of_not_lt fun hlt => hnew (Or.inr hlt)
    · exact hloc.imp (fun hloc => ⟨hloc.1, rfl, hloc.2.2⟩) id
  · obtain rfl := Except.ok.inj h
    refine ⟨Or.inr ⟨hend, rfl, Nat.le_refl _⟩, fun loc hloc => ?_⟩
    rcases hloc with hloc | ⟨hm, hs, hle⟩
    · exact Or.inl hloc
    · refine Or.inr ⟨hm, rfl, ?_⟩
      rw [hs] at hnew
      have hlt := hnew.resolve_left Bool.noConfusion
      exact Nat.le_of_lt (Nat.lt_of_le_of_lt hle hlt)
  · obtain rfl := Except.ok.inj h
    refine ⟨Or.inr ⟨hend, rfl, ?_⟩, fun loc hloc => ?_⟩
    · exact Nat.le_of_not_lt fun hlt => hnew (Or.inr hlt)
    · exact hloc.imp id fun hloc => ⟨hloc.1, rfl, hloc.2.2⟩

theorem ffuScanLocations_reaches : ∀ {nloc p : ℕ} {scan scan' : FfuScan},
    ffuScanLocations buf nloc p scan = .ok scan' →
      (∀ loc ∈ ffuLocations buf nloc p, scan'.Reaches loc)
        ∧ ∀ loc, scan.Reaches loc → scan'.Reaches loc
  | 0, p, scan, scan', h => by
    obtain rfl := Except.ok.inj h
    exact ⟨(fun loc hloc => by cases hloc), fun _ => id⟩
  | nloc + 1, p, scan, scan', h => by
    simp only [ffuScanLocations, bind_eq_ok_iff] at h
    obtain ⟨mid, hmid, hrest⟩ := h
    obtain ⟨hfirst, hold⟩ := ffuScanLocation_reaches hmid
    obtain ⟨hlater, hkeep⟩ := ffuScanLocations_reaches hrest
    refine ⟨fun loc hloc => ?_, fun loc hloc => hkeep loc (hold loc hloc)⟩
    rcases List.mem_cons.mp hloc with rfl | hloc
    · exact hkeep _ hfirst
    · exact hlater loc hloc

theorem ffuScanFrom_reaches : ∀ {ndesc p payload : ℕ} {scan : FfuScan} {found : FfuScanned},
    ffuScanFrom compressed buf len ndesc p payload scan = .ok found →
      (∀ d ∈ ffuDescriptors compressed buf ndesc p, ∀ loc ∈ d.locations, found.scan.Reaches loc)
        ∧ ∀ loc, scan.Reaches loc → found.scan.Reaches loc
  | 0, p, payload, scan, found, h => by
    obtain rfl := Except.ok.inj h
    exact ⟨(fun d hd => by cases hd), fun _ => id⟩
  | ndesc + 1, p, payload, scan, found, h => by
    obtain ⟨d, q, scan', rest, hd, ⟨nloc, p', hloc, hscan⟩, hrest, rfl⟩ := ffuScanFrom_succ h
    obtain ⟨hfirst, hold⟩ := ffuScanLocations_reaches hscan
    obtain ⟨hlater, hkeep⟩ := ffuScanFrom_reaches hrest
    refine ⟨fun e he loc hl => ?_, fun loc hl => hkeep loc (hold loc hl)⟩
    rw [hd] at he
    rcases List.mem_cons.mp he with rfl | he
    · exact hkeep loc (hfirst loc (hloc ▸ hl))
    · exact hlater e he loc hl

/-- A location that is reached lies on the disk, and counts from one of its ends. -/
theorem FfuScan.Reaches.lt_total {scan : FfuScan} {loc : ℕ × ℕ} (h : scan.Reaches loc)
    (minBytes blockSize : ℕ) : loc.2 < ffuTotal scan minBytes blockSize := by
  have hle : ffuTotal scan 0 blockSize ≤ ffuTotal scan minBytes blockSize := by
    simp only [ffuTotal]
    split_ifs <;> omega
  have hlt : loc.2 < ffuTotal scan 0 blockSize := by
    simp only [ffuTotal, ne_eq, not_true_eq_false, false_and, if_false]
    rcases h with ⟨-, hs, hle⟩ | ⟨-, hs, hle⟩
    · rw [hs, if_pos rfl]
      omega
    · rw [hs, if_pos rfl]
      omega
  omega

end Scan

/-! ### The map -/

section Map

variable {compressed : Bool} {totalBlocks : ℕ} {buf : Buf}

theorem ffuVblock_eq {loc : ℕ × ℕ} (h : loc.2 < totalBlocks) (htotal : totalBlocks < 2 ^ 32) :
    ffuVblock totalBlocks loc.1 loc.2 = ffuDiskBlock totalBlocks loc := by
  simp only [ffuVblock, ffuDiskBlock]
  split_ifs
  · rfl
  · omega

theorem ffuDiskBlock_lt {loc : ℕ × ℕ} (h : loc.2 < totalBlocks) :
    ffuDiskBlock totalBlocks loc < totalBlocks := by
  simp only [ffuDiskBlock]
  split_ifs <;> omega

theorem mem_ffuMapLocations {i e : ℕ} : ∀ {nloc p : ℕ},
    e ∈ ffuMapLocations totalBlocks buf i nloc p
      ↔ ∃ loc ∈ ffuLocations buf nloc p, e = ffuVblock totalBlocks loc.1 loc.2 * 2 ^ 32 + i
  | 0, p => by simp [ffuMapLocations, ffuLocations]
  | nloc + 1, p => by
    simp only [ffuMapLocations, ffuLocations, List.mem_cons, mem_ffuMapLocations, exists_eq_or_imp]

/-- The entries of the map, in any order: one for each location of each descriptor. -/
theorem mem_ffuMapFrom {e : ℕ} : ∀ {ndesc i p : ℕ},
    e ∈ ffuMapFrom compressed totalBlocks buf ndesc i p
      ↔ ∃ k d, (ffuDescriptors compressed buf ndesc p)[k]? = some d ∧ ∃ loc ∈ d.locations,
        e = ffuVblock totalBlocks loc.1 loc.2 * 2 ^ 32 + (i + k)
  | 0, i, p => by simp [ffuMapFrom, ffuDescriptors]
  | ndesc + 1, i, p => by
    simp only [ffuMapFrom, ffuDescriptors, List.mem_append, mem_ffuMapLocations, mem_ffuMapFrom]
    constructor
    · rintro (⟨loc, hloc, rfl⟩ | ⟨k, d, hd, hloc⟩)
      · exact ⟨0, _, rfl, loc, hloc, rfl⟩
      · refine ⟨k + 1, d, hd, ?_⟩
        rwa [show i + (k + 1) = i + 1 + k by omega]
    · rintro ⟨_ | k, d, hd, hloc⟩
      · obtain rfl := Option.some.inj hd
        exact Or.inl hloc
      · refine Or.inr ⟨k, d, hd, ?_⟩
        rwa [show i + (k + 1) = i + 1 + k by omega] at hloc

/-- The entries of the map of a disk that holds all locations. -/
theorem mem_ffuMap_iff {ndesc e : ℕ} (hdisk : FfuOnDisk totalBlocks
  (ffuDescriptors compressed buf ndesc 0))
    (htotal : totalBlocks < 2 ^ 32) :
    e ∈ ffuMapFrom compressed totalBlocks buf ndesc 0 0
      ↔ ∃ v k, FfuNames totalBlocks (ffuDescriptors compressed buf ndesc 0) v k
        ∧ e = v * 2 ^ 32 + k := by
  rw [mem_ffuMapFrom]
  constructor
  · rintro ⟨k, d, hd, loc, hloc, rfl⟩
    have hlt := hdisk d (List.mem_of_getElem? hd) loc hloc
    exact ⟨_, k, ⟨d, hd, loc, hloc, rfl⟩, by rw [ffuVblock_eq hlt htotal, Nat.zero_add]⟩
  · rintro ⟨v, k, ⟨d, hd, loc, hloc, rfl⟩, rfl⟩
    have hlt := hdisk d (List.mem_of_getElem? hd) loc hloc
    exact ⟨k, d, hd, loc, hloc, by rw [ffuVblock_eq hlt htotal, Nat.zero_add]⟩

theorem FfuNames.lt {ds : List FfuDescriptor} {v k : ℕ} (h : FfuNames totalBlocks ds v k)
    (hdisk : FfuOnDisk totalBlocks ds) : v < totalBlocks ∧ k < ds.length := by
  obtain ⟨d, hd, loc, hloc, rfl⟩ := h
  exact ⟨ffuDiskBlock_lt (hdisk d (List.mem_of_getElem? hd) loc hloc),
    (List.getElem?_eq_some_iff.mp hd).1⟩

end Map

/-! ### Lookup -/

/-- The image and the write descriptors it was opened with. -/
structure FfuImage.Holds (img : FfuImage) (ds : List FfuDescriptor) : Prop where
  disk : FfuOnDisk img.totalBlocks ds
  total_lt : img.totalBlocks < 2 ^ 32
  count : ds.length = img.ndesc
  count_lt : img.ndesc < 2 ^ 32
  entry : ∀ e, (∃ i < img.nblocks, img.map i = e)
    ↔ ∃ v k, FfuNames img.totalBlocks ds v k ∧ e = v * 2 ^ 32 + k
  sorted : ∀ i j, i ≤ j → j < img.nblocks → img.map i ≤ img.map j

/-- `ffu_lookup` finds the last descriptor that names the disk block, if there is one. -/
theorem ffuLookup_spec {img : FfuImage} {ds : List FfuDescriptor} (h : img.Holds ds) {v : ℕ}
    (hv : v < img.totalBlocks) :
    match ffuLookup img v with
    | none => ∀ k, ¬ FfuNames img.totalBlocks ds v k
    | some k => FfuLast img.totalBlocks ds v k := by
  have htotal := h.total_lt
  have hkey : u64 ((v + 1) * 2 ^ 32) = (v + 1) * 2 ^ 32 := u64_of_lt (by omega)
  simp only [ffuLookup, hkey]
  obtain ⟨p, hp⟩ : ∃ p : ℕ → Bool, p = fun mid => decide (img.map mid < (v + 1) * 2 ^ 32) :=
    ⟨_, rfl⟩
  rw [← hp]
  have hmono : ∀ i j, i ≤ j → j < img.nblocks → p j = true → p i = true := by
    intro i j hij hj hpj
    have hle := h.sorted i j hij hj
    simp only [hp, decide_eq_true_eq] at hpj ⊢
    omega
  set lo := Bisect.search p img.nblocks with hlo
  have hlon : lo ≤ img.nblocks := Bisect.search_le p _
  -- a descriptor that names the block has its entry in front of `lo`
  have hfront : ∀ k, FfuNames img.totalBlocks ds v k →
      ∃ i < lo, img.map i = v * 2 ^ 32 + k := by
    intro k hk
    have hk' := (hk.lt h.disk).2
    have hcount := h.count
    have hcountLt := h.count_lt
    obtain ⟨i, hi, hmap⟩ := (h.entry _).mpr ⟨v, k, hk, rfl⟩
    refine ⟨i, Nat.lt_of_not_le fun hle => ?_, hmap⟩
    have hnot := Bisect.not_of_le hmono hle hi
    simp only [hp, decide_eq_false_iff_not] at hnot
    omega
  split_ifs with hmiss
  · intro k hk
    obtain ⟨i, hi, hmap⟩ := hfront k hk
    have hle := h.sorted i (lo - 1) (by omega) (by omega)
    have hpred := Bisect.pred_search (p := p) (n := img.nblocks) (by omega)
    rw [← hlo] at hpred
    simp only [hp, decide_eq_true_eq] at hpred
    omega
  · obtain ⟨v', k, hk, hmap⟩ := (h.entry _).mp ⟨lo - 1, by omega, rfl⟩
    have hk' := (hk.lt h.disk).2
    have hcount := h.count
    have hcountLt := h.count_lt
    have hv' : v' = v := by omega
    have hmod : img.map (lo - 1) % 2 ^ 32 = k := by omega
    rw [hmod]
    refine ⟨hv' ▸ hk, fun k' hk'' => ?_⟩
    obtain ⟨i, hi, hmap'⟩ := hfront k' hk''
    have hle := h.sorted i (lo - 1) (by omega) (by omega)
    omega

end FsRover
