import FsRover.Fs.Vma
import Mathlib.Data.List.ProdSigma
import Mathlib.Data.List.Pairwise

/-!
# The clusters of a VMA archive

Which clusters a scan of the extents finds for each device, and where their blocks lie.

## Main definitions

* `FsRover.VmaExtents` : the positions of the extents.
* `FsRover.vmaBlockPos` : the place of a block.
* `FsRover.VmaScanned` : what a scan of descriptors adds to the streams.

## Main results

* `FsRover.vmaScanExtents_spec` : the scan collects the clusters in the order they are stored.
* `FsRover.vmaBlockPos_inside`, `FsRover.vmaBlockPos_disjoint` : blocks lie in the payload of their
  extent and do not overlap.
* `FsRover.vmaSortClusters_numbered` : a complete stream has each number once.
-/

namespace FsRover

open Guards

variable {md5 : Buf → ℕ → List UInt8} {bytes : Buf}

/-! ### Places of blocks -/

/-- The positions of the extents from `pos` to the end of the archive. -/
inductive VmaExtents (bytes : Buf) (size : ℕ) : ℕ → List ℕ → Prop
  | done {pos : ℕ} (h : size ≤ pos) : VmaExtents bytes size pos []
  | next {pos : ℕ} {extents : List ℕ} (h : pos < size)
      (hrest : VmaExtents bytes size
        (pos + (VMA_EXTENT_HEADER_SIZE + vmaBlockCount (bytes.from pos) * VMA_BLOCK_SIZE)) extents) :
      VmaExtents bytes size pos (pos :: extents)

/-- The number of set bits of a mask below bit `b`. -/
def vmaRank (mask b : ℕ) : ℕ := Nat.count (fun i => mask.testBit i = true) b

/-- The number of blocks of the descriptors before descriptor `i`. -/
def vmaBlocksBefore (head : Buf) : ℕ → ℕ
  | 0 => 0
  | i + 1 => vmaBlocksBefore head i + vmaRank (vmaMask head i) 16

/-- The extent header that holds a descriptor, given by the position of the extent and the index. -/
def vmaHead (bytes : Buf) (place : ℕ × ℕ) : Buf := bytes.from place.1

/-- Where the block of bit `b` of a descriptor lies. -/
def vmaBlockPos (bytes : Buf) (place : ℕ × ℕ) (b : ℕ) : ℕ :=
  place.1 + VMA_EXTENT_HEADER_SIZE + (vmaBlocksBefore (vmaHead bytes place) place.2
    + vmaRank (vmaMask (vmaHead bytes place) place.2) b) * VMA_BLOCK_SIZE

/-- The descriptors of the extents at these positions. -/
def vmaPlaces (extents : List ℕ) : List (ℕ × ℕ) :=
  extents.product (List.range VMA_CLUSTERS_PER_EXTENT)

theorem mem_vmaPlaces {extents : List ℕ} {place : ℕ × ℕ} :
    place ∈ vmaPlaces extents ↔ place.1 ∈ extents ∧ place.2 < VMA_CLUSTERS_PER_EXTENT := by
  obtain ⟨pos, i⟩ := place
  exact List.mem_product.trans (and_congr Iff.rfl List.mem_range)

@[simp] theorem vmaRank_zero (mask : ℕ) : vmaRank mask 0 = 0 := by simp [vmaRank]

theorem vmaRank_lt {mask b b' : ℕ} (hbit : mask.testBit b = true) (h : b < b') :
    vmaRank mask b < vmaRank mask b' := Nat.count_strict_mono hbit h

theorem vmaBlocksBefore_mono (head : Buf) {i i' : ℕ} (h : i ≤ i') :
    vmaBlocksBefore head i ≤ vmaBlocksBefore head i' := by
  induction h with
  | refl => exact Nat.le_refl _
  | step _ ih => exact ih.trans (Nat.le_add_right _ _)

theorem vmaInfo_lt (head : Buf) (i : ℕ) : vmaInfo head i < 2 ^ 64 := lostBe64_lt _ _

theorem vmaMask_lt (head : Buf) (i : ℕ) : vmaMask head i < 2 ^ 16 := by
  have h := vmaInfo_lt head i
  rw [vmaMask]
  omega

theorem vmaPopcount16_mask (head : Buf) (i : ℕ) :
    vmaPopcount16 (vmaMask head i) = vmaRank (vmaMask head i) 16 :=
  Rank.clearing_eq_count (vmaMask_lt head i) (Nat.le_refl _)

theorem VmaExtents.ge {size pos : ℕ} {extents : List ℕ} (h : VmaExtents bytes size pos extents) :
    ∀ p ∈ extents, pos ≤ p := by
  induction h with
  | done _ => simp
  | next _ _ ih =>
    intro p hp
    rcases List.mem_cons.mp hp with rfl | hp
    · exact Nat.le_refl _
    · exact (Nat.le_add_right _ _).trans (ih p hp)

/-- An extent begins behind the payload of the one before it. -/
theorem VmaExtents.pairwise {size pos : ℕ} {extents : List ℕ}
    (h : VmaExtents bytes size pos extents) :
    extents.Pairwise fun p q =>
      p + (VMA_EXTENT_HEADER_SIZE + vmaBlockCount (bytes.from p) * VMA_BLOCK_SIZE) ≤ q := by
  induction h with
  | done _ => exact .nil
  | next _ hrest ih => exact .cons hrest.ge ih

theorem VmaExtents.separate {size pos p q : ℕ} {extents : List ℕ}
    (h : VmaExtents bytes size pos extents) (hp : p ∈ extents) (hq : q ∈ extents) (hne : p ≠ q) :
    p + (VMA_EXTENT_HEADER_SIZE + vmaBlockCount (bytes.from p) * VMA_BLOCK_SIZE) ≤ q
      ∨ q + (VMA_EXTENT_HEADER_SIZE + vmaBlockCount (bytes.from q) * VMA_BLOCK_SIZE) ≤ p := by
  obtain ⟨i, hi, rfl⟩ := List.getElem_of_mem hp
  obtain ⟨j, hj, rfl⟩ := List.getElem_of_mem hq
  have hall := List.pairwise_iff_getElem.mp h.pairwise
  rcases Nat.lt_trichotomy i j with hij | rfl | hij
  · exact .inl (hall i j hi hj hij)
  · exact absurd rfl hne
  · exact .inr (hall j i hj hi hij)

/-! ### The scan -/

/-- The cluster that a descriptor describes. -/
def vmaClusterAt (bytes : Buf) (place : ℕ × ℕ) : VmaCluster :=
  ⟨vmaBlockPos bytes place 0, vmaClusterNum (vmaHead bytes place) place.2,
    vmaMask (vmaHead bytes place) place.2⟩

/-- The descriptors of a device. -/
def vmaPlacesOf (bytes : Buf) (dev : ℕ) (places : List (ℕ × ℕ)) : List (ℕ × ℕ) :=
  places.filter fun place => vmaDevId (vmaHead bytes place) place.2 = dev

/-- The descriptors at `places` have added their clusters to the streams. -/
structure VmaScanned (bytes : Buf) (places : List (ℕ × ℕ)) (s s' : ℕ → VmaStream) : Prop where
  clusters : ∀ dev, dev ≠ 0 →
    s' dev = { s dev with
      clusters := (s dev).clusters ++ (vmaPlacesOf bytes dev places).map (vmaClusterAt bytes) }
  zero : s' 0 = s 0
  inRange : ∀ place ∈ places, vmaDevId (vmaHead bytes place) place.2 ≠ 0 →
    (s (vmaDevId (vmaHead bytes place) place.2)).name ≠ none
      ∧ vmaClusterNum (vmaHead bytes place) place.2
        < (s (vmaDevId (vmaHead bytes place) place.2)).expectedClusters
  unused : ∀ place ∈ places, vmaDevId (vmaHead bytes place) place.2 = 0 →
    vmaMask (vmaHead bytes place) place.2 = 0

variable {s s' s'' : ℕ → VmaStream}

theorem VmaScanned.refl (bytes : Buf) (s : ℕ → VmaStream) : VmaScanned bytes [] s s :=
  ⟨fun dev _ => by simp [vmaPlacesOf], rfl, by simp, by simp⟩

theorem VmaScanned.same {places : List (ℕ × ℕ)} (h : VmaScanned bytes places s s') (dev : ℕ) :
    (s' dev).name = (s dev).name ∧ (s' dev).size = (s dev).size
      ∧ (s' dev).expectedClusters = (s dev).expectedClusters := by
  by_cases hdev : dev = 0
  · rw [hdev, h.zero]
    exact ⟨rfl, rfl, rfl⟩
  · rw [h.clusters dev hdev]
    exact ⟨rfl, rfl, rfl⟩

theorem VmaScanned.append {places places' : List (ℕ × ℕ)} (h : VmaScanned bytes places s s')
    (h' : VmaScanned bytes places' s' s'') : VmaScanned bytes (places ++ places') s s'' where
  clusters dev hdev := by
    rw [h'.clusters dev hdev, h.clusters dev hdev]
    simp [vmaPlacesOf]
  zero := h'.zero.trans h.zero
  inRange place hplace hdev := by
    rcases List.mem_append.mp hplace with hplace | hplace
    · exact h.inRange place hplace hdev
    · obtain ⟨hname, -, hexpected⟩ := h.same (vmaDevId (vmaHead bytes place) place.2)
      rw [← hname, ← hexpected]
      exact h'.inRange place hplace hdev
  unused place hplace hdev := by
    rcases List.mem_append.mp hplace with hplace | hplace
    · exact h.unused place hplace hdev
    · exact h'.unused place hplace hdev

/-- What the loop over the descriptors has done before descriptor `i`. -/
structure VmaExtentScanned (bytes : Buf) (pos : ℕ) (s : ℕ → VmaStream) (i : ℕ)
    (scan : VmaExtentScan) : Prop where
  scanned : VmaScanned bytes ((List.range i).map fun k => (pos, k)) s scan.streams
  actualBlocks : scan.actualBlocks = vmaBlocksBefore (bytes.from pos) i
  payloadPos : scan.payloadPos = vmaBlockPos bytes (pos, i) 0

theorem vmaBlockPos_succ (bytes : Buf) (pos i : ℕ) :
    vmaBlockPos bytes (pos, i + 1) 0
      = vmaBlockPos bytes (pos, i) 0 + vmaRank (vmaMask (bytes.from pos) i) 16 * VMA_BLOCK_SIZE := by
  simp only [vmaBlockPos, vmaHead, vmaBlocksBefore, vmaRank_zero, Nat.add_zero, Nat.add_mul,
    Nat.add_assoc]

theorem vmaScanDescriptor_spec {pos i : ℕ} {scan scan' : VmaExtentScan}
    (h : vmaScanDescriptor (bytes.from pos) scan i = .ok scan')
    (hs : VmaExtentScanned bytes pos s i scan) : VmaExtentScanned bytes pos s (i + 1) scan' := by
  rw [vmaScanDescriptor] at h
  simp only at h
  by_cases hdev : vmaDevId (bytes.from pos) i = 0
  · rw [if_pos hdev, refuseIf_bind_eq_ok_iff] at h
    obtain ⟨hinfo, h⟩ := h
    obtain rfl := Except.ok.inj h
    have hmask : vmaMask (bytes.from pos) i = 0 := by simp [vmaMask, not_not.mp hinfo]
    have hrank : vmaRank (vmaMask (bytes.from pos) i) 16 = 0 := by
      rw [hmask]
      simp [vmaRank]
    refine ⟨?_, ?_, ?_⟩
    · rw [List.range_succ, List.map_append]
      refine hs.scanned.append ⟨fun dev hne => ?_, rfl, ?_, ?_⟩
      · simp [vmaPlacesOf, vmaHead, hdev, Ne.symm hne]
      · simp [vmaHead, hdev]
      · simp [vmaHead, hmask]
    · rw [vmaBlocksBefore, hrank, hs.actualBlocks, Nat.add_zero]
    · rw [vmaBlockPos_succ, hrank, hs.payloadPos, Nat.zero_mul, Nat.add_zero]
  · rw [if_neg hdev, refuseIf_bind_eq_ok_iff] at h
    obtain ⟨hvalid, h⟩ := h
    obtain rfl := Except.ok.inj h
    push Not at hvalid
    obtain ⟨-, hname, hnum⟩ := hvalid
    refine ⟨?_, ?_, ?_⟩
    · rw [List.range_succ, List.map_append]
      refine hs.scanned.append ⟨fun dev hne => ?_, ?_, ?_, ?_⟩
      · by_cases heq : dev = vmaDevId (bytes.from pos) i
        · rw [heq]
          simp [vmaPlacesOf, vmaHead, vmaAddCluster, vmaClusterAt, hs.payloadPos]
        · simp [vmaPlacesOf, vmaHead, Ne.symm heq, Function.update_of_ne heq]
      · simp [Function.update_of_ne (Ne.symm hdev)]
      · simpa [vmaHead] using fun _ => ⟨hname, hnum⟩
      · simp [vmaHead, hdev]
    · simp only [vmaBlocksBefore, vmaPopcount16_mask, hs.actualBlocks]
    · simp only [vmaBlockPos_succ, vmaPopcount16_mask, hs.payloadPos]

theorem vmaScanExtent_spec {data : VmaData} {pos payload : ℕ}
    (h : vmaScanExtent md5 data pos s = .ok (payload, s')) :
    payload = vmaBlockCount (data.disk.bytes.from pos) * VMA_BLOCK_SIZE
      ∧ VMA_EXTENT_HEADER_SIZE + payload ≤ data.diskSize - pos
      ∧ vmaBlocksBefore (data.disk.bytes.from pos) VMA_CLUSTERS_PER_EXTENT
        = vmaBlockCount (data.disk.bytes.from pos)
      ∧ VmaScanned data.disk.bytes
        ((List.range VMA_CLUSTERS_PER_EXTENT).map fun k => (pos, k)) s s' := by
  rw [vmaScanExtent, refuseIf_bind_eq_ok_iff, bind_eq_ok_iff] at h
  obtain ⟨-, head, hread, h⟩ := h
  obtain rfl := SizedDisk.read_eq_ok hread
  simp only [refuseIf_bind_eq_ok_iff] at h
  obtain ⟨-, -, -, -, hfits, h⟩ := h
  obtain ⟨scan, hscan, h⟩ := bind_eq_ok_iff.mp h
  rw [refuseIf_bind_eq_ok_iff] at h
  obtain ⟨hsize, h⟩ := h
  obtain ⟨rfl, rfl⟩ := Prod.mk.inj (Except.ok.inj h)
  rw [List.range_eq_range'] at hscan
  have hspec := foldlM_range'_inv (P := VmaExtentScanned data.disk.bytes pos s)
    (fun i _ _ hs hstep => vmaScanDescriptor_spec hstep hs)
    ⟨VmaScanned.refl _ s, rfl, by simp [vmaBlockPos, vmaBlocksBefore]⟩ hscan
  rw [Nat.zero_add] at hspec
  rw [hspec.actualBlocks] at hsize
  exact ⟨rfl, Nat.not_lt.mp hfits, not_not.mp (not_or.mp hsize).1, hspec.scanned⟩

/-- The extents of an archive are complete. -/
def VmaComplete (bytes : Buf) (size : ℕ) (extents : List ℕ) : Prop :=
  ∀ pos ∈ extents,
    pos + (VMA_EXTENT_HEADER_SIZE + vmaBlockCount (bytes.from pos) * VMA_BLOCK_SIZE) ≤ size
      ∧ vmaBlocksBefore (bytes.from pos) VMA_CLUSTERS_PER_EXTENT = vmaBlockCount (bytes.from pos)

/-- The scan collects the clusters of all extents in the order they are stored. -/
theorem vmaScanExtents_spec {data : VmaData} {pos : ℕ}
    (h : vmaScanExtents md5 data pos s = .ok s') :
    ∃ extents, VmaExtents data.disk.bytes data.diskSize pos extents
      ∧ VmaComplete data.disk.bytes data.diskSize extents
      ∧ VmaScanned data.disk.bytes (vmaPlaces extents) s s' := by
  induction pos, s using vmaScanExtents.induct md5 data with
  | case1 pos s hpos e herr =>
    rw [vmaScanExtents, if_pos hpos, herr] at h
    cases h
  | case2 pos s hpos payload s₁ hextent ih =>
    rw [vmaScanExtents, if_pos hpos, hextent] at h
    obtain ⟨extents, hextents, hcomplete, hscanned⟩ := ih h
    obtain ⟨rfl, hfits, hblocks, hfirst⟩ := vmaScanExtent_spec hextent
    refine ⟨pos :: extents, .next hpos hextents, ?_, hfirst.append hscanned⟩
    intro p hp
    rcases List.mem_cons.mp hp with rfl | hp
    · exact ⟨by omega, hblocks⟩
    · exact hcomplete p hp
  | case3 pos s hpos =>
    rw [vmaScanExtents, if_neg hpos] at h
    obtain rfl := Except.ok.inj h
    exact ⟨[], .done (Nat.not_lt.mp hpos), by simp [VmaComplete], VmaScanned.refl _ _⟩

/-! ### Blocks do not overlap -/

variable {size start : ℕ} {extents : List ℕ}

/-- The blocks of the descriptors up to one, and of that one up to a set bit. -/
theorem vmaBlocks_lt {head : Buf} {i b n : ℕ} (hi : i < n) (hb : b < 16)
    (hbit : (vmaMask head i).testBit b = true) :
    vmaBlocksBefore head i + vmaRank (vmaMask head i) b < vmaBlocksBefore head n := by
  have hrank := vmaRank_lt hbit hb
  have hmono := vmaBlocksBefore_mono head (Nat.succ_le_of_lt hi)
  rw [vmaBlocksBefore] at hmono
  omega

/-- A block lies in the payload of its extent. -/
theorem vmaBlockPos_inside (hcomplete : VmaComplete bytes size extents) {place : ℕ × ℕ}
    (hplace : place ∈ vmaPlaces extents) {b : ℕ} (hb : b < 16)
    (hbit : (vmaMask (vmaHead bytes place) place.2).testBit b = true) :
    place.1 + VMA_EXTENT_HEADER_SIZE ≤ vmaBlockPos bytes place b
      ∧ vmaBlockPos bytes place b + VMA_BLOCK_SIZE ≤ place.1 + (VMA_EXTENT_HEADER_SIZE
        + vmaBlockCount (vmaHead bytes place) * VMA_BLOCK_SIZE) := by
  obtain ⟨hextent, hi⟩ := mem_vmaPlaces.mp hplace
  have hlt := vmaBlocks_lt hi hb hbit
  rw [vmaHead, (hcomplete _ hextent).2] at hlt
  have hmul := Nat.mul_le_mul_right VMA_BLOCK_SIZE (Nat.succ_le_of_lt hlt)
  rw [Nat.succ_mul] at hmul
  rw [vmaBlockPos, vmaHead]
  omega

/-- Blocks of one extent, in the order of their descriptors and bits. -/
theorem vmaBlockPos_lt {pos i j b c : ℕ} (hb : b < 16)
    (hbit : (vmaMask (bytes.from pos) i).testBit b = true) (h : i < j ∨ i = j ∧ b < c) :
    vmaBlockPos bytes (pos, i) b + VMA_BLOCK_SIZE ≤ vmaBlockPos bytes (pos, j) c := by
  have hlt : vmaBlocksBefore (bytes.from pos) i + vmaRank (vmaMask (bytes.from pos) i) b
      < vmaBlocksBefore (bytes.from pos) j + vmaRank (vmaMask (bytes.from pos) j) c := by
    rcases h with hij | ⟨rfl, hbc⟩
    · exact (vmaBlocks_lt hij hb hbit).trans_le (Nat.le_add_right _ _)
    · exact Nat.add_lt_add_left (vmaRank_lt hbit hbc) _
  have hmul := Nat.mul_le_mul_right VMA_BLOCK_SIZE (Nat.succ_le_of_lt hlt)
  rw [Nat.succ_mul] at hmul
  simp only [vmaBlockPos, vmaHead]
  omega

/-- Different blocks do not overlap. -/
theorem vmaBlockPos_disjoint (hextents : VmaExtents bytes size start extents)
    (hcomplete : VmaComplete bytes size extents) {place place' : ℕ × ℕ} {b b' : ℕ}
    (hplace : place ∈ vmaPlaces extents) (hplace' : place' ∈ vmaPlaces extents)
    (hb : b < 16) (hb' : b' < 16)
    (hbit : (vmaMask (vmaHead bytes place) place.2).testBit b = true)
    (hbit' : (vmaMask (vmaHead bytes place') place'.2).testBit b' = true)
    (hne : (place, b) ≠ (place', b')) :
    vmaBlockPos bytes place b + VMA_BLOCK_SIZE ≤ vmaBlockPos bytes place' b'
      ∨ vmaBlockPos bytes place' b' + VMA_BLOCK_SIZE ≤ vmaBlockPos bytes place b := by
  obtain ⟨pos, i⟩ := place
  obtain ⟨pos', i'⟩ := place'
  by_cases hpos : pos = pos'
  · subst hpos
    have hcases : (i < i' ∨ i = i' ∧ b < b') ∨ i' < i ∨ i' = i ∧ b' < b := by
      have hib : ¬ (i = i' ∧ b = b') := fun h => hne (by rw [h.1, h.2])
      omega
    rcases hcases with h | h
    · exact .inl (vmaBlockPos_lt hb hbit h)
    · exact .inr (vmaBlockPos_lt hb' hbit' h)
  · have hin := vmaBlockPos_inside hcomplete hplace hb hbit
    have hin' := vmaBlockPos_inside hcomplete hplace' hb' hbit'
    have hsep := hextents.separate (mem_vmaPlaces.mp hplace).1 (mem_vmaPlaces.mp hplace').1 hpos
    simp only [vmaHead] at hin hin' hsep ⊢
    omega

/-! ### Sorted clusters -/

theorem vmaSortClusters_perm (clusters : List VmaCluster) :
    (vmaSortClusters clusters).Perm clusters :=
  Heap.perm_map_sort VmaCluster.number clusters

/-- In a stream that passes the check cluster `k` is the one with number `k`, and no number comes
twice. -/
theorem vmaSortClusters_numbered {clusters : List VmaCluster}
    (h : (vmaSortClusters clusters).map VmaCluster.number
      = List.range (vmaSortClusters clusters).length) :
    (∀ cluster ∈ clusters, (vmaSortClusters clusters)[cluster.number]? = some cluster)
      ∧ (clusters.map VmaCluster.number).Nodup
      ∧ ∀ k < clusters.length, ∃ cluster ∈ clusters, cluster.number = k := by
  have hperm := vmaSortClusters_perm clusters
  have hnumber : ∀ i (hi : i < (vmaSortClusters clusters).length),
      (vmaSortClusters clusters)[i].number = i := by
    intro i hi
    have hget := congrArg (fun l => l[i]?) h
    simpa [hi] using hget
  refine ⟨fun cluster hmem => ?_, ?_, fun k hk => ?_⟩
  · obtain ⟨i, hi, rfl⟩ := List.getElem_of_mem (hperm.mem_iff.mpr hmem)
    rw [hnumber i hi, List.getElem?_eq_getElem hi]
  · rw [← (hperm.map VmaCluster.number).nodup_iff, h]
    exact List.nodup_range
  · rw [← hperm.length_eq] at hk
    exact ⟨_, hperm.mem_iff.mp (List.getElem_mem hk), hnumber k hk⟩

end FsRover
