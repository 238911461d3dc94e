import FsRover.Fs.VmaScan
import FsRover.Lib.History

/-!
# What a VMA archive restores

The device of a mounted archive is the stream of its clusters: block `b` of cluster `k` is the block
that the descriptor numbered `k` has for its bit `b`, or zeros.

## Main definitions

* `FsRover.VmaDescribes` : a descriptor of a cluster of a device.
* `FsRover.VmaArchive` : what a mounted archive is like.
* `FsRover.VmaRestores` : a byte of an item.

## Main results

* `FsRover.grubVmaMount_archive` : a mounted archive is complete.
* `FsRover.grubVmaMount_restores` : reads return the restored bytes.
-/

namespace FsRover

open Guards History

variable {md5 : Buf → ℕ → List UInt8}

/-! ### The header -/

/-- The size of a device in the header; zero if it is not listed. -/
def vmaDeviceSize (header : Buf) (dev : ℕ) : ℕ := lostBe64 header (4096 + dev * 32 + 8)

/-- The item is a blob of the header, or one of the devices before device `n`. -/
def VmaItemOk (header : Buf) (headerSize n : ℕ) (item : VmaItem) : Prop :=
  match item.type with
  | .config => item.dataOffset + item.size ≤ headerSize
  | .device => 1 ≤ item.devId ∧ item.devId < n ∧ item.size = vmaDeviceSize header item.devId

/-- The device is listed before device `n`. -/
def VmaListed (header : Buf) (n dev : ℕ) : Prop :=
  1 ≤ dev ∧ dev < n ∧ vmaDeviceSize header dev ≠ 0

/-- What the header has been read into before device `n`. -/
structure VmaParsed (disk : SizedDisk) (diskSize : ℕ) (header : Buf) (headerSize n : ℕ)
    (data : VmaData) : Prop where
  sameDisk : data.disk = disk
  sameDiskSize : data.diskSize = diskSize
  sameHeader : data.header = header
  sameHeaderSize : data.headerSize = headerSize
  items : ∀ item ∈ data.items, VmaItemOk header headerSize n item
  listed : ∀ dev, VmaListed header n dev → ∃ name, data.streams dev =
    ⟨some name, vmaDeviceSize header dev, vmaExpectedClusters (vmaDeviceSize header dev), []⟩
  blank : ∀ dev, ¬ VmaListed header n dev → data.streams dev = ⟨none, 0, 0, []⟩

variable {disk : SizedDisk} {diskSize headerSize n : ℕ} {header : Buf} {data data' : VmaData}

theorem VmaItemOk.succ {item : VmaItem} (h : VmaItemOk header headerSize n item) :
    VmaItemOk header headerSize (n + 1) item := by
  unfold VmaItemOk at h ⊢
  split at h
  · exact h
  · exact ⟨h.1, by omega, h.2.2⟩

theorem vmaBlob_fits {blobOffset blobSize pointer off size : ℕ}
    (h : vmaBlob header blobOffset blobSize pointer = some (off, size))
    (hblob : blobOffset ≤ headerSize ∧ blobSize ≤ headerSize - blobOffset)
    (hmax : headerSize ≤ VMA_HEADER_MAX_SIZE) : off + size ≤ headerSize := by
  rw [vmaBlob] at h
  simp only [VMA_HEADER_MAX_SIZE] at h hmax
  split_ifs at h with hpointer hsize
  obtain ⟨rfl, rfl⟩ := Prod.mk.inj (Option.some.inj h)
  have hmod : (blobOffset + pointer) % 2 ^ 32 = blobOffset + pointer :=
    Nat.mod_eq_of_lt (by omega)
  rw [hmod] at hsize ⊢
  omega

theorem vmaAddItem_parsed {item : VmaItem} (h : vmaAddItem data item = some data')
    (hd : VmaParsed disk diskSize header headerSize n data)
    (hitem : VmaItemOk header headerSize n item) :
    VmaParsed disk diskSize header headerSize n data' := by
  rw [vmaAddItem] at h
  split_ifs at h
  obtain rfl := Option.some.inj h
  refine { hd with items := fun other hother => ?_ }
  rcases List.mem_append.mp hother with hother | hother
  · exact hd.items other hother
  · exact List.mem_singleton.mp hother ▸ hitem

theorem vmaParseConfig_parsed {blobOffset blobSize i : ℕ}
    (h : vmaParseConfig blobOffset blobSize data i = .ok data')
    (hblob : blobOffset ≤ headerSize ∧ blobSize ≤ headerSize - blobOffset)
    (hmax : headerSize ≤ VMA_HEADER_MAX_SIZE)
    (hd : VmaParsed disk diskSize header headerSize n data) :
    VmaParsed disk diskSize header headerSize n data' := by
  rw [vmaParseConfig] at h
  simp only at h
  by_cases hnone : lostBe32 data.header (2044 + i * 4) = 0
      ∧ lostBe32 data.header (3068 + i * 4) = 0
  · rw [if_pos hnone] at h
    exact Except.ok.inj h ▸ hd
  · rw [if_neg hnone, refuseIf_bind_eq_ok_iff] at h
    obtain ⟨-, h⟩ := h
    simp only [require_bind_eq_ok_iff] at h
    obtain ⟨⟨nameBlob, nameSize⟩, -, h⟩ := h
    simp only at h
    obtain ⟨⟨valueBlob, valueSize⟩, hvalue, h⟩ := h
    simp only [require_eq_ok_iff] at h
    obtain ⟨name, -, h⟩ := h
    exact vmaAddItem_parsed h hd (vmaBlob_fits hvalue hblob hmax)

theorem VmaParsed.skip (hd : VmaParsed disk diskSize header headerSize n data)
    (hnone : vmaDeviceSize header n = 0) :
    VmaParsed disk diskSize header headerSize (n + 1) data := by
  have hiff : ∀ dev, VmaListed header (n + 1) dev ↔ VmaListed header n dev := by
    intro dev
    constructor
    · rintro ⟨hone, hlt, hsize⟩
      refine ⟨hone, Nat.lt_of_le_of_ne (Nat.lt_succ_iff.mp hlt) ?_, hsize⟩
      rintro rfl
      exact hsize hnone
    · rintro ⟨hone, hlt, hsize⟩
      exact ⟨hone, by omega, hsize⟩
  exact { hd with
    items := fun item hitem => (hd.items item hitem).succ
    listed := fun dev hdev => hd.listed dev ((hiff dev).mp hdev)
    blank := fun dev hdev => hd.blank dev fun h => hdev ((hiff dev).mpr h) }

theorem vmaParseDevice_parsed {blobOffset blobSize : ℕ} (hn : 1 ≤ n)
    (h : vmaParseDevice blobOffset blobSize data n = .ok data')
    (hd : VmaParsed disk diskSize header headerSize n data) :
    VmaParsed disk diskSize header headerSize (n + 1) data' := by
  obtain rfl := hd.sameHeader
  rw [vmaParseDevice] at h
  simp only at h
  by_cases hnone : lostBe32 data.header (4096 + n * 32) = 0
      ∧ lostBe64 data.header (4096 + n * 32 + 8) = 0
  · rw [if_pos hnone] at h
    exact Except.ok.inj h ▸ hd.skip hnone.2
  · rw [if_neg hnone, refuseIf_bind_eq_ok_iff] at h
    obtain ⟨hboth, h⟩ := h
    simp only [require_bind_eq_ok_iff] at h
    obtain ⟨⟨nameBlob, nameSize⟩, -, h⟩ := h
    simp only [require_eq_ok_iff] at h
    obtain ⟨name, -, h⟩ := h
    have hsize : vmaDeviceSize data.header n ≠ 0 := (not_or.mp hboth).2
    have hblank := hd.blank n fun h => absurd h.2.1 (Nat.lt_irrefl n)
    refine vmaAddItem_parsed h ⟨hd.sameDisk, hd.sameDiskSize, rfl, hd.sameHeaderSize,
      fun item hitem => (hd.items item hitem).succ, fun dev hdev => ?_, fun dev hdev => ?_⟩
      ⟨hn, Nat.lt_succ_self n, rfl⟩
    · by_cases heq : dev = n
      · subst heq
        refine ⟨name, ?_⟩
        simp only [Function.update_self, hblank]
        rfl
      · have hlt := hdev.2.1
        have hold := hd.listed dev ⟨hdev.1, by omega, hdev.2.2⟩
        simpa [Function.update_of_ne heq] using hold
    · have hne : dev ≠ n := by
        rintro rfl
        exact hdev ⟨hn, Nat.lt_succ_self _, hsize⟩
      have hold := hd.blank dev fun h => hdev ⟨h.1, Nat.lt_succ_of_lt h.2.1, h.2.2⟩
      simpa [Function.update_of_ne hne] using hold

theorem vmaParseHeader_parsed (h : vmaParseHeader md5 data = .ok data')
    (hmax : headerSize ≤ VMA_HEADER_MAX_SIZE)
    (hd : VmaParsed disk diskSize header headerSize 1 data) :
    VmaParsed disk diskSize header headerSize 255 data' := by
  rw [vmaParseHeader] at h
  simp only [refuseIf_bind_eq_ok_iff] at h
  obtain ⟨-, -, hblob, -, h⟩ := h
  rw [hd.sameHeaderSize] at hblob
  obtain ⟨data₁, hconfigs, h⟩ := bind_eq_ok_iff.mp h
  rw [List.range_eq_range'] at hconfigs
  push Not at hblob
  have h₀ : VmaParsed disk diskSize header headerSize 1
      { data with uuid := data.header.list 8 16, ctime := lostBe64 data.header 24 } := { hd with }
  have h₁ := foldlM_range'_inv (P := fun _ data => VmaParsed disk diskSize header headerSize 1 data)
    (fun _ _ _ hs hstep => vmaParseConfig_parsed hstep hblob.2 hmax hs) h₀ hconfigs
  have h₂ := foldlM_range'_inv
    (P := fun n data => 1 ≤ n ∧ VmaParsed disk diskSize header headerSize n data)
    (fun i s s' hs hstep => ⟨Nat.le_succ_of_le hs.1, vmaParseDevice_parsed hs.1 hstep hs.2⟩)
    ⟨Nat.le_refl 1, h₁⟩ h
  exact h₂.2

/-! ### The streams -/

/-- What the last loop of the scan makes of the stream of a listed device. -/
structure VmaChecked (stream stream' : VmaStream) : Prop where
  eq : stream' = { stream with clusters := vmaSortClusters stream.clusters }
  complete : stream.expectedClusters = stream.clusters.length
  numbered : (vmaSortClusters stream.clusters).map VmaCluster.number
    = List.range (vmaSortClusters stream.clusters).length

/-- The streams before device `n` are checked. -/
def VmaCheckedBefore (s : ℕ → VmaStream) (n : ℕ) (s' : ℕ → VmaStream) : Prop :=
  ∀ dev, if 1 ≤ dev ∧ dev < n ∧ (s dev).name ≠ none then VmaChecked (s dev) (s' dev)
    else s' dev = s dev

theorem vmaCheckStream_spec {s s₁ s₂ : ℕ → VmaStream} (hn : 1 ≤ n)
    (h : vmaCheckStream s₁ n = .ok s₂) (hs : VmaCheckedBefore s n s₁) :
    VmaCheckedBefore s (n + 1) s₂ := by
  have hat : s₁ n = s n := by
    have hdev := hs n
    rwa [if_neg fun h => absurd h.2.1 (Nat.lt_irrefl n)] at hdev
  have hbefore : ∀ dev, dev ≠ n → ((1 ≤ dev ∧ dev < n + 1 ∧ (s dev).name ≠ none)
      ↔ (1 ≤ dev ∧ dev < n ∧ (s dev).name ≠ none)) := fun dev hne => by
    have hlt : dev < n + 1 ↔ dev < n := by omega
    rw [hlt]
  rw [vmaCheckStream] at h
  simp only [hat] at h
  intro dev
  by_cases hname : (s n).name = none
  · rw [if_pos hname] at h
    obtain rfl := Except.ok.inj h
    by_cases heq : dev = n
    · rw [heq, if_neg fun h => h.2.2 hname, hat]
    · rw [if_congr (hbefore dev heq) rfl rfl]
      exact hs dev
  · rw [if_neg hname] at h
    simp only [refuseIf_bind_eq_ok_iff, not_not] at h
    obtain ⟨hcomplete, hnumbered, h⟩ := h
    obtain rfl := Except.ok.inj h
    by_cases heq : dev = n
    · rw [heq, if_pos ⟨hn, Nat.lt_succ_self n, hname⟩]
      exact ⟨by simp, hcomplete, hnumbered⟩
    · rw [if_congr (hbefore dev heq) rfl rfl, Function.update_of_ne heq]
      exact hs dev

/-! ### The archive -/

/-- The descriptor at `place` describes cluster `k` of device `dev`. -/
def VmaDescribes (bytes : Buf) (extents : List ℕ) (dev k : ℕ) (place : ℕ × ℕ) : Prop :=
  place ∈ vmaPlaces extents ∧ vmaDevId (vmaHead bytes place) place.2 = dev
    ∧ vmaClusterNum (vmaHead bytes place) place.2 = k

/-- A block of a descriptor that is stored in the archive. -/
def VmaStored (bytes : Buf) (extents : List ℕ) (place : ℕ × ℕ) (b : ℕ) : Prop :=
  place ∈ vmaPlaces extents ∧ b < 16 ∧ (vmaMask (vmaHead bytes place) place.2).testBit b = true

/-- A mounted archive on a disk with these bytes, whose extents lie at these positions. -/
structure VmaArchive (bytes : Buf) (sectors : ℕ) (extents : List ℕ) (data : VmaData) : Prop where
  sameDisk : data.disk = ⟨bytes, some sectors⟩
  sameHeader : data.header = bytes
  sameHeaderSize : data.headerSize = lostBe32 bytes 56
  items : ∀ item ∈ data.items, VmaItemOk bytes data.headerSize 255 item
  walk : VmaExtents bytes (512 * sectors) data.headerSize extents
  listed : ∀ dev, VmaListed bytes 255 dev → (data.streams dev).clusters.length
    = vmaExpectedClusters (vmaDeviceSize bytes dev)
  inRange : ∀ place ∈ vmaPlaces extents, vmaDevId (vmaHead bytes place) place.2 ≠ 0 →
    VmaListed bytes 255 (vmaDevId (vmaHead bytes place) place.2)
      ∧ vmaClusterNum (vmaHead bytes place) place.2
        < vmaExpectedClusters (vmaDeviceSize bytes (vmaDevId (vmaHead bytes place) place.2))
  unique : ∀ dev k, VmaListed bytes 255 dev →
    k < vmaExpectedClusters (vmaDeviceSize bytes dev) →
      ∃! place, VmaDescribes bytes extents dev k place
  sorted : ∀ dev k place, VmaListed bytes 255 dev → VmaDescribes bytes extents dev k place →
    (data.streams dev).clusters[k]? = some (vmaClusterAt bytes place)
  inside : ∀ place b, VmaStored bytes extents place b →
    place.1 + VMA_EXTENT_HEADER_SIZE ≤ vmaBlockPos bytes place b
      ∧ vmaBlockPos bytes place b + VMA_BLOCK_SIZE ≤ place.1 + (VMA_EXTENT_HEADER_SIZE
        + vmaBlockCount (vmaHead bytes place) * VMA_BLOCK_SIZE)
      ∧ vmaBlockPos bytes place b + VMA_BLOCK_SIZE ≤ 512 * sectors
  disjoint : ∀ place b place' b', VmaStored bytes extents place b →
    VmaStored bytes extents place' b' → (place, b) ≠ (place', b') →
      vmaBlockPos bytes place b + VMA_BLOCK_SIZE ≤ vmaBlockPos bytes place' b'
        ∨ vmaBlockPos bytes place' b' + VMA_BLOCK_SIZE ≤ vmaBlockPos bytes place b

theorem mem_vmaPlacesOf {bytes : Buf} {dev : ℕ} {places : List (ℕ × ℕ)} {place : ℕ × ℕ} :
    place ∈ vmaPlacesOf bytes dev places
      ↔ place ∈ places ∧ vmaDevId (vmaHead bytes place) place.2 = dev := by
  simp [vmaPlacesOf]

/-- A mounted archive is complete: its descriptors number the clusters of each device, and its
blocks lie apart. -/
theorem grubVmaMount_archive (h : grubVmaMount md5 disk = .ok data) :
    ∃ sectors extents, VmaArchive disk.bytes sectors extents data := by
  rw [grubVmaMount] at h
  obtain ⟨probe, hprobe, h⟩ := bind_eq_ok_iff.mp h
  obtain rfl := SizedDisk.read_eq_ok hprobe
  simp only [refuseIf_bind_eq_ok_iff] at h
  obtain ⟨-, hsize, h⟩ := h
  obtain ⟨sectors, hsectors, h⟩ := require_bind_eq_ok_iff.mp h
  simp only [refuseIf_bind_eq_ok_iff] at h
  obtain ⟨-, -, h⟩ := h
  obtain ⟨header, hheader, h⟩ := bind_eq_ok_iff.mp h
  obtain rfl := SizedDisk.read_eq_ok hheader
  obtain ⟨parsed, hparse, h⟩ := bind_eq_ok_iff.mp h
  obtain ⟨scanned, hscan, h⟩ := bind_eq_ok_iff.mp h
  obtain ⟨streams, hcheck, h⟩ := bind_eq_ok_iff.mp h
  obtain rfl := Except.ok.inj h
  simp only [Buf.from_zero] at hparse hsize
  push Not at hsize
  have hparsed := @vmaParseHeader_parsed md5 disk (512 * sectors) _ disk.bytes _ _ hparse hsize.2.1
    ⟨rfl, rfl, rfl, rfl, by simp, fun dev hdev => absurd hdev.2.1 (by have := hdev.1; omega),
      fun _ _ => rfl⟩
  obtain ⟨extents, hextents, hcomplete, hscanned⟩ := vmaScanExtents_spec hscan
  rw [hparsed.sameDisk] at hextents hcomplete hscanned
  rw [hparsed.sameDiskSize] at hextents hcomplete
  have hchecked := (foldlM_range'_inv (P := fun n s => 1 ≤ n ∧ VmaCheckedBefore scanned n s)
    (fun i s s' hs hstep => ⟨Nat.le_succ_of_le hs.1, vmaCheckStream_spec hs.1 hstep hs.2⟩)
    ⟨Nat.le_refl 1, fun dev => by rw [if_neg fun h => absurd h.2.1 (by have := h.1; omega)]⟩
    hcheck).2
  -- the stream of a listed device
  have hstream : ∀ dev, VmaListed disk.bytes 255 dev → VmaChecked (scanned dev) (streams dev)
      ∧ (scanned dev).clusters = (vmaPlacesOf disk.bytes dev (vmaPlaces extents)).map
        (vmaClusterAt disk.bytes)
      ∧ (scanned dev).expectedClusters
        = vmaExpectedClusters (vmaDeviceSize disk.bytes dev) := by
    intro dev hdev
    obtain ⟨name, hname⟩ := hparsed.listed dev hdev
    have hne : dev ≠ 0 := by
      have hone := hdev.1
      omega
    have hsame := hscanned.same dev
    have hclusters := congrArg VmaStream.clusters (hscanned.clusters dev hne)
    rw [hname] at hsame hclusters
    have hat := hchecked dev
    rw [if_pos ⟨hdev.1, hdev.2.1, by rw [hsame.1]; simp⟩] at hat
    exact ⟨hat, hclusters, hsame.2.2⟩
  have hnumbered := fun dev hdev => vmaSortClusters_numbered (hstream dev hdev).1.numbered
  refine ⟨sectors, extents, ?_⟩
  constructor
  · obtain ⟨bytes, known⟩ := disk
    simp only at hsectors
    rw [hparsed.sameDisk, hsectors]
  · exact hparsed.sameHeader
  · exact hparsed.sameHeaderSize
  · rw [hparsed.sameHeaderSize]
    exact hparsed.items
  · exact hextents
  · intro dev hdev
    obtain ⟨hcheck, -, hexpected⟩ := hstream dev hdev
    simp only [hcheck.eq]
    rw [(vmaSortClusters_perm _).length_eq, ← hcheck.complete, hexpected]
  · intro place hplace hdev
    obtain ⟨hname, hlt⟩ := hscanned.inRange place hplace hdev
    have hlisted : VmaListed disk.bytes 255 (vmaDevId (vmaHead disk.bytes place) place.2) := by
      by_contra hnot
      rw [hparsed.blank _ hnot] at hname
      exact hname rfl
    obtain ⟨name, hat⟩ := hparsed.listed _ hlisted
    rw [hat] at hlt
    exact ⟨hlisted, hlt⟩
  · intro dev k hdev hk
    obtain ⟨hcheck, hclusters, hexpected⟩ := hstream dev hdev
    obtain ⟨-, hnodup, hall⟩ := hnumbered dev hdev
    rw [← hexpected, hcheck.complete] at hk
    obtain ⟨cluster, hmem, hnumber⟩ := hall k hk
    rw [hclusters] at hmem hnodup
    rw [List.map_map] at hnodup
    obtain ⟨place, hplace, rfl⟩ := List.mem_map.mp hmem
    obtain ⟨hin, hid⟩ := mem_vmaPlacesOf.mp hplace
    refine ⟨place, ⟨hin, hid, hnumber⟩, fun place' hplace' => ?_⟩
    exact List.inj_on_of_nodup_map hnodup (mem_vmaPlacesOf.mpr ⟨hplace'.1, hplace'.2.1⟩) hplace
      (hplace'.2.2.trans hnumber.symm)
  · intro dev k place hdev hplace
    obtain ⟨hcheck, hclusters, -⟩ := hstream dev hdev
    obtain ⟨hat, -, -⟩ := hnumbered dev hdev
    have hmem : vmaClusterAt disk.bytes place ∈ (scanned dev).clusters := by
      rw [hclusters]
      exact List.mem_map_of_mem (mem_vmaPlacesOf.mpr ⟨hplace.1, hplace.2.1⟩)
    have hget := hat _ hmem
    rw [vmaClusterAt, hplace.2.2] at hget
    simp only [hcheck.eq, vmaClusterAt, hplace.2.2]
    exact hget
  · rintro place b ⟨hplace, hb, hbit⟩
    have hin := vmaBlockPos_inside hcomplete hplace hb hbit
    have hfits := (hcomplete _ (mem_vmaPlaces.mp hplace).1).1
    exact ⟨hin.1, hin.2, hin.2.trans hfits⟩
  · rintro place b place' b' ⟨hplace, hb, hbit⟩ ⟨hplace', hb', hbit'⟩ hne
    exact vmaBlockPos_disjoint hextents hcomplete hplace hplace' hb hb' hbit hbit' hne

/-! ### Reads -/

/-- Byte `x` of an item: a byte of its blob in the header, or what the descriptor of its cluster
says about its block. -/
def VmaRestores (bytes : Buf) (extents : List ℕ) (item : VmaItem) (x : ℕ) (byte : UInt8) : Prop :=
  match item.type with
  | .config => byte = bytes (item.dataOffset + x)
  | .device => ∃ place, VmaDescribes bytes extents item.devId (x / 2 ^ 16) place
      ∧ byte = if (vmaMask (vmaHead bytes place) place.2).testBit (x / 2 ^ 12 % 16) then
          bytes (vmaBlockPos bytes place (x / 2 ^ 12 % 16) + x % VMA_BLOCK_SIZE) else 0

variable {bytes : Buf} {sectors : ℕ} {extents : List ℕ} {item : VmaItem} {view : ℕ → UInt8}

theorem lt_vmaExpectedClusters {x size : ℕ} (h : x < size) :
    x / 2 ^ 16 < vmaExpectedClusters size := by
  rw [vmaExpectedClusters]
  split_ifs with hrest <;> omega

theorem vmaListed_of_lt (hitem : VmaItemOk bytes headerSize 255 item) (htype : item.type = .device)
    {x : ℕ} (hx : x < item.size) : VmaListed bytes 255 item.devId
      ∧ x / 2 ^ 16 < vmaExpectedClusters (vmaDeviceSize bytes item.devId) := by
  simp only [VmaItemOk, htype] at hitem
  obtain ⟨hone, hlt, hsize⟩ := hitem
  rw [← hsize]
  exact ⟨⟨hone, hlt, by omega⟩, lt_vmaExpectedClusters hx⟩

theorem VmaArchive.exists_restores (h : VmaArchive bytes sectors extents data)
    (hitem : item ∈ data.items) {x : ℕ} (hx : x < item.size) :
    ∃ byte, VmaRestores bytes extents item x byte := by
  unfold VmaRestores
  cases htype : item.type with
  | config => exact ⟨_, rfl⟩
  | device =>
    obtain ⟨hlisted, hk⟩ := vmaListed_of_lt (h.items item hitem) htype hx
    obtain ⟨place, hplace, -⟩ := h.unique _ _ hlisted hk
    exact ⟨_, place, hplace, rfl⟩

theorem vmaReadBlock_eq (h : VmaArchive bytes sectors extents data) (hitem : item ∈ data.items)
    (htype : item.type = .device)
    (hview : ∀ x < item.size, VmaRestores bytes extents item x (view x)) {pos count : ℕ}
    (hcount : 0 < count) (hblock : pos % VMA_BLOCK_SIZE + count ≤ VMA_BLOCK_SIZE)
    (hend : pos + count ≤ item.size) :
    vmaReadBlock data item pos count = some (slice view pos count) := by
  obtain ⟨hlisted, hk⟩ := vmaListed_of_lt (h.items item hitem) htype (x := pos) (by omega)
  obtain ⟨place, hplace, honly⟩ := h.unique _ _ hlisted hk
  have hsorted := h.sorted _ _ _ hlisted hplace
  -- the bytes of the round
  have hat : ∀ i < count, view (pos + i)
      = if (vmaMask (vmaHead bytes place) place.2).testBit (pos / 2 ^ 12 % 16) then
          bytes (vmaBlockPos bytes place (pos / 2 ^ 12 % 16) + (pos % VMA_BLOCK_SIZE + i)) else 0 := by
    intro i hi
    have hx := hview (pos + i) (by omega)
    simp only [VmaRestores, htype] at hx
    obtain ⟨hdiv, hmod⟩ := div_mod_add_of_lt (show pos % VMA_BLOCK_SIZE + i < VMA_BLOCK_SIZE by omega)
    have hcluster : (pos + i) / 2 ^ 16 = pos / 2 ^ 16 := by
      rw [VMA_BLOCK_SIZE] at hdiv
      omega
    rw [show (2 : ℕ) ^ 12 = VMA_BLOCK_SIZE from rfl, hcluster, hdiv, hmod] at hx
    obtain ⟨place', hplace', hbyte⟩ := hx
    rw [honly place' hplace'] at hbyte
    exact hbyte
  rw [vmaReadBlock]
  simp only [hsorted, vmaClusterAt, Option.bind_eq_bind, Option.bind_some]
  by_cases hbit : (vmaMask (vmaHead bytes place) place.2).testBit (pos / 2 ^ 12 % 16) = true
  · have hrank : vmaPopcount16 (vmaMask (vmaHead bytes place) place.2
        &&& (1 <<< (pos / 2 ^ 12 % 16) - 1))
        = vmaRank (vmaMask (vmaHead bytes place) place.2) (pos / 2 ^ 12 % 16) :=
      Rank.clearing_low (by omega)
    have hpos : vmaBlockPos bytes place 0
        + vmaRank (vmaMask (vmaHead bytes place) place.2) (pos / 2 ^ 12 % 16) * VMA_BLOCK_SIZE
        = vmaBlockPos bytes place (pos / 2 ^ 12 % 16) := by
      simp only [vmaBlockPos, vmaRank_zero, Nat.add_zero, Nat.add_mul, Nat.add_assoc]
    have hstored : VmaStored bytes extents place (pos / 2 ^ 12 % 16) :=
      ⟨hplace.1, Nat.mod_lt _ (by decide), hbit⟩
    have hfits := (h.inside _ _ hstored).2.2
    rw [if_pos hbit, hrank, hpos, h.sameDisk, SizedDisk.read]
    simp only
    rw [if_pos (by omega)]
    simp only [Except.toOption, Option.bind_some, Option.some.injEq]
    refine List.ext_getElem (by simp [Buf.list]) fun i hi _ => ?_
    simp only [Buf.list, List.length_map, List.length_range'] at hi
    rw [getElem_slice, hat i hi, if_pos hbit]
    simp [Buf.list, Nat.add_assoc]
  · rw [if_neg hbit, Option.some.injEq]
    refine List.ext_getElem (by simp) fun i hi _ => ?_
    rw [List.length_replicate] at hi
    rw [List.getElem_replicate, getElem_slice, hat i hi, if_neg hbit]

theorem vmaReadBlocks_eq (h : VmaArchive bytes sectors extents data) (hitem : item ∈ data.items)
    (htype : item.type = .device)
    (hview : ∀ x < item.size, VmaRestores bytes extents item x (view x)) {pos left : ℕ}
    (hend : pos + left ≤ item.size) :
    vmaReadBlocks data item pos left = some (slice view pos left) := by
  induction left using Nat.strong_induction_on generalizing pos with
  | h left ih =>
    rw [vmaReadBlocks]
    by_cases hleft : left = 0
    · rw [if_pos hleft, hleft]
      rfl
    · have hmod : pos % VMA_BLOCK_SIZE < VMA_BLOCK_SIZE := Nat.mod_lt _ (by decide)
      have hcount : 0 < min (VMA_BLOCK_SIZE - pos % VMA_BLOCK_SIZE) left := by omega
      rw [if_neg hleft]
      simp only
      rw [vmaReadBlock_eq h hitem htype hview hcount (by omega) (by omega)]
      simp only
      rw [ih _ (by omega) (by omega), Option.map_some, slice_append, Nat.add_sub_cancel' (by omega)]

/-- Reads of a mounted archive return what it restores, and any split of a read returns the same
bytes. -/
theorem grubVmaMount_restores (h : grubVmaMount md5 disk = .ok data) :
    ∃ sectors extents, VmaArchive disk.bytes sectors extents data ∧
      ∀ item ∈ data.items, ∃ view : ℕ → UInt8,
        (∀ x < item.size, VmaRestores disk.bytes extents item x (view x))
          ∧ (∀ pos len, pos + len ≤ item.size →
            grubVmaRead data item pos len = some (slice view pos len))
          ∧ ∀ pos m n, pos + (m + n) ≤ item.size → ∃ bs bs',
            grubVmaRead data item pos m = some bs ∧ grubVmaRead data item (pos + m) n = some bs'
              ∧ grubVmaRead data item pos (m + n) = some (bs ++ bs') := by
  obtain ⟨sectors, extents, harchive⟩ := grubVmaMount_archive h
  refine ⟨sectors, extents, harchive, fun item hitem => ?_⟩
  have hall : ∀ x, ∃ byte, x < item.size → VmaRestores disk.bytes extents item x byte := by
    intro x
    by_cases hx : x < item.size
    · obtain ⟨byte, hbyte⟩ := harchive.exists_restores hitem hx
      exact ⟨byte, fun _ => hbyte⟩
    · exact ⟨0, fun h => absurd h hx⟩
  obtain ⟨view, hview⟩ := Classical.axiom_of_choice hall
  have hread : ∀ pos len, pos + len ≤ item.size →
      grubVmaRead data item pos len = some (slice view pos len) := by
    intro pos len hend
    rw [grubVmaRead, if_neg (by omega)]
    cases htype : item.type with
    | config =>
      have hok := harchive.items item hitem
      simp only [VmaItemOk, htype] at hok
      simp only
      rw [if_neg (by omega), harchive.sameHeader, Option.some.injEq]
      refine List.ext_getElem (by simp [Buf.list]) fun i hi _ => ?_
      simp only [Buf.list, List.length_map, List.length_range'] at hi
      have hx := hview (pos + i) (by omega)
      simp only [VmaRestores, htype] at hx
      simp [Buf.list, hx, Nat.add_assoc]
    | device => exact vmaReadBlocks_eq harchive hitem htype hview hend
  refine ⟨view, hview, hread, fun pos m n hend => ?_⟩
  exact ⟨_, _, hread pos m (by omega), hread (pos + m) n (by omega), by
    rw [hread pos (m + n) hend, slice_append]⟩

/-- The header of an archive with one device, `a`, of 5000 bytes. -/
def vmaOneHeader : List (ℕ × List UInt8) :=
  [(0, [0x56, 0x4d, 0x41, 0, 0, 0, 0, 1]),
    (32, [0x90, 0xa3, 0x52, 0x97, 0xfa, 0x39, 0xca, 0x32, 0x9a, 0x9f, 0xf2, 0x42, 0x59, 0x60, 0x66,
      0xe1, 0, 0, 0x30, 0, 0, 0, 0, 0x10, 0, 0, 0x32, 0]),
    (4128, [0, 0, 0, 1, 0, 0, 0, 0, 0, 0, 0, 0, 0, 0, 0x13, 0x88]), (12289, [2, 0, 0x61, 0])]

/-- Its extent, with the second block of its cluster. -/
def vmaOneExtent : List (ℕ × List UInt8) :=
  [(12800, [0x56, 0x4d, 0x41, 0x45, 0, 0, 0, 1]),
    (12824, [0x14, 0x78, 0x58, 0x49, 0x57, 0x0c, 0x6f, 0x4e, 0x7b, 0x67, 0x49, 0x1b, 0x3f, 0xd7, 0x3f,
      0x52, 0, 2, 0, 1, 0, 0, 0, 0]),
    (13312, [0x41])]

def vmaOne : SizedDisk := ⟨Buf.ofFields (vmaOneHeader ++ vmaOneExtent), some 34⟩

/-- The hashes of the two headers. -/
def vmaOneMd5 (_ : Buf) (n : ℕ) : List UInt8 :=
  if n = 512 then [0x14, 0x78, 0x58, 0x49, 0x57, 0x0c, 0x6f, 0x4e, 0x7b, 0x67, 0x49, 0x1b, 0x3f, 0xd7,
    0x3f, 0x52]
  else [0x90, 0xa3, 0x52, 0x97, 0xfa, 0x39, 0xca, 0x32, 0x9a, 0x9f, 0xf2, 0x42, 0x59, 0x60, 0x66,
    0xe1]

theorem grubVmaMount_restores_one : ∃ data, grubVmaMount vmaOneMd5 vmaOne = .ok data
    ∧ ∃ sectors extents, VmaArchive vmaOne.bytes sectors extents data ∧
      ∀ item ∈ data.items, ∃ view : ℕ → UInt8, ∀ pos len, pos + len ≤ item.size →
        grubVmaRead data item pos len = some (slice view pos len) := by
  have hok : (grubVmaMount vmaOneMd5 vmaOne).toOption.isSome = true := by decide +kernel
  obtain ⟨sectors, extents, harchive, hitems⟩ := grubVmaMount_restores (eq_ok_get hok)
  refine ⟨_, eq_ok_get hok, sectors, extents, harchive, fun item hitem => ?_⟩
  obtain ⟨view, -, hread, -⟩ := hitems item hitem
  exact ⟨view, hread⟩

end FsRover
