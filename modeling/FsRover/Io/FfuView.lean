import FsRover.Io.FfuMap
import Mathlib.Data.List.GetD

/-!
# Reads of a full flash update and its cache

The bytes of the disk follow from the write descriptors and the payload. A read that succeeds
returns them as long as the cache holds the block its number says. A payload block that does not
decompress is written over the cached one, which keeps its number.

## Main definitions

* `FsRover.ffuBlock`, `FsRover.FfuByte` : a payload block, and the byte at a place of the disk.
* `FsRover.FfuState.Sound` : the cache holds the block its number says.
* `FsRover.FfuSteady` : no block that fails to decompress changes the cached one.

## Main results

* `FsRover.ffuOpenImage_opened` : what opening guarantees.
* `FsRover.ffuRead_spec` : what one read keeps and returns.
* `FsRover.ffuRead_view` : the reads of a run return the bytes of the disk.
-/

namespace FsRover

open Guards History

/-! ### Opening -/

/-- The write descriptors of a store. -/
def ffuStoreDescriptors (file : GrubFile) (store : FfuStore) : List FfuDescriptor :=
  ffuDescriptors (decide (store.compression ≠ FFU_COMPRESS_NONE)) (file.byte.from store.descOff)
    store.descCount 0

/-- What opening guarantees of an image with the descriptors `ds`. -/
structure FfuImage.Opened (img : FfuImage) (ds : List FfuDescriptor) : Prop where
  holds : img.Holds ds
  block_pos : 0 < img.blockSize
  bytes : img.totalBytes = img.totalBlocks * img.blockSize
  data_le : img.dataOff ≤ img.file.size
  plain : img.compression = FFU_COMPRESS_NONE → img.ndesc * img.blockSize
    ≤ img.file.size - img.dataOff
  poff : img.compression ≠ FFU_COMPRESS_NONE → ∀ k ≤ img.ndesc,
    img.poff k = ((ds.take k).map FfuDescriptor.size).sum
  room : img.compression ≠ FFU_COMPRESS_NONE → img.poff img.ndesc ≤ img.file.size - img.dataOff

theorem ffuPread_eq_ok {file : GrubFile} {call off len : ℕ} {b : Buf}
    (h : ffuPread file call off len = .ok b) : file.Holds off len ∧ b = file.byte.from off := by
  unfold ffuPread at h
  cases hr : file.pread call off len ffuTruncated with
  | error e =>
    rw [hr] at h
    cases h
  | ok b' =>
    rw [hr] at h
    obtain rfl := Except.ok.inj h
    exact GrubFile.pread_eq_ok hr

theorem ffuAlignUp_le {pos unit limit pos' : ℕ} (h : ffuAlignUp pos unit limit = .ok pos') :
    pos' ≤ limit := by
  simp only [ffuAlignUp, bind_eq_ok_iff, refuseIf_eq_ok_iff, exists_const] at h
  obtain ⟨_, -, hle, heq⟩ := h
  rw [← Except.ok.inj heq]
  omega

theorem ffuStoreAt_spec {file : GrubFile} {first : Bool} {pos stores : ℕ} {store : FfuStore}
    (h : ffuStoreAt file first pos = .ok (store, stores)) :
    store.dataOff ≤ file.size ∧ FFU_BLOCK_MIN ≤ store.blockSize ∧ store.blockSize ≤ FFU_CHUNK_MAX
      ∧ store.descCount < 2 ^ 32 := by
  simp only [ffuStoreAt, bind_eq_ok_iff, refuseIf_eq_ok_iff, exists_const, not_or] at h
  obtain ⟨sh, -, version, -, ⟨hmin, hmax, -⟩, _, -, _, -, _, -, _, -,
    -, _, halign, heq⟩ := h
  obtain ⟨rfl, -⟩ := Prod.mk.inj (Except.ok.inj heq)
  exact ⟨ffuAlignUp_le halign, Nat.le_of_not_lt hmin, Nat.le_of_not_lt hmax, lostLe32_lt _ _⟩

theorem ffuSkipStores_le {file : GrubFile} : ∀ {n pos pos' : ℕ}, pos ≤ file.size →
    ffuSkipStores file n pos = .ok pos' → pos' ≤ file.size
  | 0, pos, pos', hle, h => Except.ok.inj h ▸ hle
  | n + 1, pos, pos', hle, h => by
    simp only [ffuSkipStores, bind_eq_ok_iff] at h
    obtain ⟨⟨store, stores⟩, hstore, hrest⟩ := h
    exact ffuSkipStores_le (ffuStoreAt_spec hstore).1 hrest

theorem ffuOpenStore_spec {file : GrubFile} {store : FfuStore} (h : ffuOpenStore file = .ok store) :
    store.dataOff ≤ file.size ∧ FFU_BLOCK_MIN ≤ store.blockSize ∧ store.blockSize ≤ FFU_CHUNK_MAX
      ∧ store.descCount < 2 ^ 32 := by
  simp only [ffuOpenStore, bind_eq_ok_iff, refuseIf_eq_ok_iff, exists_const] at h
  obtain ⟨_, -, -, -, -, _, -, _, -, -, _, -, _, -, -, -, -, _, -, _, -, _, -, -, _, -, _, -, r,
    hstore, dataOff, hskip, heq⟩ := h
  obtain rfl := Except.ok.inj heq
  obtain ⟨hle, hblock⟩ := ffuStoreAt_spec hstore
  exact ⟨ffuSkipStores_le hle hskip, hblock⟩

theorem ffuSortMap_mem (l : List ℕ) (e : ℕ) :
    (∃ i < l.length, ffuSortMap l.length (fun i => l.getD i 0) i = e) ↔ e ∈ l := by
  have hsort := @Heap.sort_rearranges _ _ _ id l.length fun i => l.getD i 0
  constructor
  · rintro ⟨i, hi, rfl⟩
    obtain ⟨j, hj, heq⟩ := hsort.exists_eq hi
    rw [ffuSortMap, heq, List.getD_eq_getElem _ _ hj]
    exact List.getElem_mem hj
  · intro he
    obtain ⟨j, hj, rfl⟩ := List.getElem_of_mem he
    obtain ⟨i, hi, heq⟩ := hsort.exists_eq' hj
    exact ⟨i, hi, by rw [ffuSortMap, heq, List.getD_eq_getElem _ _ hj]⟩

/-- An image that opens holds the descriptors of its store, with all offsets in the file. -/
theorem ffuOpenImage_opened {file : GrubFile} {xca : List UInt8 → Option (List UInt8)}
    {img : FfuImage} (h : ffuOpenImage file xca = .ok img) :
    ∃ store, ffuOpenStore file = .ok store ∧ img.Opened (ffuStoreDescriptors file store) := by
  simp only [ffuOpenImage, bind_eq_ok_iff, refuseIf_eq_ok_iff, require_eq_ok_iff, exists_const] at h
  obtain ⟨store, hstore, -, -, -, -, hplain, buf, hbuf, found, hfound, -, htotal, bytes,
    hbytes, heq⟩ := h
  obtain ⟨hdata, hmin, hmax, hcount⟩ := ffuOpenStore_spec hstore
  obtain ⟨-, rfl⟩ := ffuPread_eq_ok hbuf
  obtain rfl := Except.ok.inj heq
  simp only [ffuScanDescriptors, bind_eq_ok_iff, refuseIf_eq_ok_iff, exists_const] at hfound
  obtain ⟨found', hscan, -, hroom, heq⟩ := hfound
  obtain rfl := Except.ok.inj heq
  obtain ⟨hreach, -⟩ := ffuScanFrom_reaches hscan
  have hdisk : FfuOnDisk (ffuTotal found'.scan store.minBytes store.blockSize)
      (ffuStoreDescriptors file store) :=
    fun d hd loc hloc => (hreach d hd loc hloc).lt_total _ _
  have htotal : ffuTotal found'.scan store.minBytes store.blockSize < 2 ^ 32 := by omega
  have hpoff : ∀ k ≤ store.descCount, found'.poff.getD k 0
      = (((ffuStoreDescriptors file store).take k).map FfuDescriptor.size).sum := by
    intro k hk
    have h := ffuScanFrom_poff hscan (by omega) k hk
    rwa [Nat.zero_add] at h
  have hsub : sub64 file.size store.dataOff = file.size - store.dataOff :=
    sub64_of_le hdata file.size_lt
  refine ⟨store, hstore, ?_⟩
  exact {
    holds := {
      disk := hdisk
      total_lt := htotal
      count := length_ffuDescriptors _ _
      count_lt := hcount
      entry := fun e => (ffuSortMap_mem _ e).trans (mem_ffuMap_iff hdisk htotal)
      sorted := fun i j hij hj => @Heap.sort_sorted _ _ _ id _ _ _ _ hij hj }
    block_pos := Nat.lt_of_lt_of_le (by decide) hmin
    bytes := (grubMul_eq_some.mp hbytes).2
    data_le := hdata
    plain := fun hnone => by
      have hle := fun hlt => hplain ⟨hnone, hlt⟩
      have hmul : store.descCount * store.blockSize < 2 ^ 64 := by
        have hchunk : store.blockSize ≤ 2 ^ 25 := hmax
        have h := Nat.mul_le_mul (Nat.le_of_lt hcount) hchunk
        omega
      rw [hsub, u64_of_lt hmul] at hle
      exact Nat.le_of_not_lt hle
    poff := fun _ => hpoff
    room := fun hne => by
      have hle := fun hlt => hroom ⟨decide_eq_true hne, hlt⟩
      rw [hsub] at hle
      exact Nat.le_of_not_lt hle }

/-! ### The disk -/

/-- The bytes of payload block `k`: from the store, or decompressed. -/
def ffuBlock (img : FfuImage) (ds : List FfuDescriptor) (k : ℕ) : Option Buf :=
  if img.compression = FFU_COMPRESS_NONE then
    some (img.file.byte.from (img.dataOff + k * img.blockSize))
  else
    let off := ((ds.take k).map FfuDescriptor.size).sum
    let size := ((ds[k]?).map FfuDescriptor.size).getD 0
    match ffuDecode img (slice img.file.byte (img.dataOff + off) size) with
    | .error _ => none
    | .ok out => if out.length = img.blockSize then some fun i => out.getD i 0 else none

/-- `b` is the byte at `x` of the disk: from the payload block of the last descriptor that names the
disk block, or zero where none does. -/
def FfuByte (img : FfuImage) (ds : List FfuDescriptor) (x : ℕ) (b : UInt8) : Prop :=
  (∃ k block, FfuLast img.totalBlocks ds (x / img.blockSize) k ∧ ffuBlock img ds k = some block
      ∧ b = block (x % img.blockSize))
    ∨ ((∀ k, ¬ FfuNames img.totalBlocks ds (x / img.blockSize) k) ∧ b = 0)

/-! ### The cache -/

/-- The cache holds the payload block its number says. -/
def FfuState.Sound (img : FfuImage) (ds : List FfuDescriptor) (s : FfuState) : Prop :=
  s.cached ≠ FFU_CACHED_NONE → ∃ block, ffuBlock img ds s.cached = some block
    ∧ ∀ i < img.blockSize, s.cache i = block i

theorem FfuState.sound_init (img : FfuImage) (ds : List FfuDescriptor) (memory : Buf) :
    (FfuState.init memory).Sound img ds := fun h => absurd rfl h

/-- A payload block `k` that is read in the state `s` and does not decompress leaves the bytes of
the block that is cached. -/
def FfuBlockSteady (img : FfuImage) (s : FfuState) (k : ℕ) : Prop :=
  s.cached ≠ FFU_CACHED_NONE → s.cached ≠ k →
    ∀ src, ffuPread img.file s.calls (u64 (img.dataOff + img.poff k))
        (img.poff (k + 1) - img.poff k) = .ok src →
      let written := ffuDecode img (src.take (img.poff (k + 1) - img.poff k))
      (∀ out, written = .ok out → out.length ≠ img.blockSize) →
        ∀ i < img.blockSize, s.cache.write written.bytes i = s.cache i

/-- A read at `off` in the state `s` is steady. -/
def FfuSteady (img : FfuImage) (s : FfuState) (off : ℕ) : Prop :=
  ∀ k, ffuLookup img (off / img.blockSize % 2 ^ 32) = some k → FfuBlockSteady img s k

/-- The payload of block `k` lies behind that of block `k - 1`, in the file. -/
theorem FfuImage.Opened.poff_succ {img : FfuImage} {ds : List FfuDescriptor} (ho : img.Opened ds)
    (hcomp : img.compression ≠ FFU_COMPRESS_NONE) {k : ℕ} (hk : k < img.ndesc) :
    img.poff (k + 1) = img.poff k + ((ds[k]?).map FfuDescriptor.size).getD 0 := by
  rw [ho.poff hcomp (k + 1) hk, ho.poff hcomp k (Nat.le_of_lt hk), List.take_add_one]
  have hlt : k < ds.length := by
    rw [ho.holds.count]
    exact hk
  simp only [List.getElem?_eq_getElem hlt, Option.toList_some, List.map_append, List.map_cons,
    List.map_nil, List.sum_append, List.sum_cons, List.sum_nil, Option.map_some, Option.getD_some,
    Nat.add_zero]

theorem FfuImage.Opened.poff_le {img : FfuImage} {ds : List FfuDescriptor} (ho : img.Opened ds)
    (hcomp : img.compression ≠ FFU_COMPRESS_NONE) {k : ℕ} (hk : k ≤ img.ndesc) :
    img.poff k ≤ img.file.size - img.dataOff := by
  have hmono : ∀ j, k + j ≤ img.ndesc → img.poff k ≤ img.poff (k + j) := by
    intro j
    induction j with
    | zero => exact fun _ => Nat.le_refl _
    | succ j ih =>
      intro hj
      have hsucc := ho.poff_succ hcomp (k := k + j) (by omega)
      have hle := ih (by omega)
      rw [← Nat.add_assoc]
      omega
  have hle := hmono (img.ndesc - k) (by omega)
  rw [show k + (img.ndesc - k) = img.ndesc by omega] at hle
  exact Nat.le_trans hle (ho.room hcomp)

/-- What is read for block `k` is its payload. -/
theorem FfuImage.Opened.payload {img : FfuImage} {ds : List FfuDescriptor} (ho : img.Opened ds)
    (hcomp : img.compression ≠ FFU_COMPRESS_NONE) {call k : ℕ} (hk : k < img.ndesc) {src : Buf}
    (h : ffuPread img.file call (u64 (img.dataOff + img.poff k)) (img.poff (k + 1) - img.poff k)
      = .ok src) :
    ffuBlock img ds k = match ffuDecode img (src.take (img.poff (k + 1) - img.poff k)) with
      | .error _ => none
      | .ok out => if out.length = img.blockSize then some fun i => out.getD i 0 else none := by
  have hle := ho.poff_le hcomp (Nat.le_of_lt hk)
  have hdata := ho.data_le
  have hsize := img.file.size_lt
  have hsucc := ho.poff_succ hcomp hk
  rw [u64_of_lt (by omega)] at h
  obtain ⟨-, rfl⟩ := ffuPread_eq_ok h
  have hlen : img.poff (k + 1) - img.poff k = ((ds[k]?).map FfuDescriptor.size).getD 0 := by omega
  have hsrc : Buf.take (img.file.byte.from (img.dataOff + img.poff k))
      (((ds[k]?).map FfuDescriptor.size).getD 0) = slice img.file.byte (img.dataOff
        + ((ds.take k).map FfuDescriptor.size).sum) (((ds[k]?).map FfuDescriptor.size).getD 0) := by
    rw [← ho.poff hcomp k (Nat.le_of_lt hk)]
    exact slice_from _ _ _
  rw [hlen, hsrc]
  simp only [ffuBlock, hcomp, if_false]

/-- `ffu_cache_block` caches the block asked for when it succeeds, and keeps the cache sound when it
succeeds or fails without changing the cached block. -/
theorem ffuCacheBlock_spec {img : FfuImage} {ds : List FfuDescriptor} (ho : img.Opened ds)
    (hcomp : img.compression ≠ FFU_COMPRESS_NONE) {s : FfuState} (hs : s.Sound img ds) {k : ℕ}
    (hk : k < img.ndesc) :
    (FfuBlockSteady img s k → (ffuCacheBlock img s k).2.Sound img ds)
      ∧ ((ffuCacheBlock img s k).1 = .ok () → (ffuCacheBlock img s k).2.Sound img ds
        ∧ (ffuCacheBlock img s k).2.cached = k) := by
  simp only [ffuCacheBlock]
  split_ifs with hhit hbad
  · exact ⟨fun _ => hs, fun _ => ⟨hs, hhit⟩⟩
  · exact ⟨fun _ => hs, fun h => by cases h⟩
  · cases hread : ffuPread img.file s.calls (u64 (img.dataOff + img.poff k))
        (img.poff (k + 1) - img.poff k) with
    | error e => exact ⟨fun _ => hs, fun h => by cases h⟩
    | ok src =>
      have hblock := ho.payload hcomp hk hread
      simp only
      -- a failure that leaves the cached block leaves the cache sound
      have hkeep : (∀ out, ffuDecode img (src.take (img.poff (k + 1) - img.poff k)) = .ok out →
          out.length ≠ img.blockSize) → FfuBlockSteady img s k → ∀ calls,
          FfuState.Sound img ds ⟨s.cache.write
            (ffuDecode img (src.take (img.poff (k + 1) - img.poff k))).bytes, s.cached, calls⟩ := by
        intro hfail hsteady calls hne
        obtain ⟨block, hb, hcache⟩ := hs hne
        exact ⟨block, hb, fun i hi => (hsteady hne hhit src hread hfail i hi).trans (hcache i hi)⟩
      cases hd : ffuDecode img (src.take (img.poff (k + 1) - img.poff k)) with
      | error out =>
        rw [hd] at hkeep
        exact ⟨fun hsteady => hkeep (fun out h => by cases h) hsteady _, fun h => by cases h⟩
      | ok out =>
        rw [hd] at hkeep hblock
        simp only at hblock ⊢
        split_ifs with hlen
        · refine ⟨fun hsteady => hkeep (fun out' h => ?_) hsteady _, fun h => by cases h⟩
          rw [← Except.ok.inj h]
          exact hlen
        · have hlen := not_not.mp hlen
          rw [if_pos hlen] at hblock
          have hsound : FfuState.Sound img ds ⟨s.cache.write (FfuWritten.bytes (.ok out)), k,
              s.calls + 1⟩ := by
            exact fun _ => ⟨_, hblock, fun i hi => Buf.write_of_lt (hlen ▸ hi)⟩
          exact ⟨fun _ => hsound, fun _ => ⟨hsound, rfl⟩⟩

theorem ffuByte_of_block {img : FfuImage} {ds : List FfuDescriptor} {off n : ℕ} {view : ℕ → UInt8}
    (h : ∀ i < n, FfuByte img ds (off + i) (view i)) {bs : List UInt8} (hbs : bs = slice view 0 n) :
    bs.length = n ∧ Agrees (FfuByte img ds) off bs := by
  rw [hbs, length_slice]
  refine ⟨rfl, agrees_iff_getElem.mpr fun i hi => ?_⟩
  rw [length_slice] at hi
  rw [getElem_slice, Nat.zero_add]
  exact h i hi

/-- `ffu_read` keeps the cache sound when it succeeds or is steady, and returns the bytes of the
disk up to the end of the block when it succeeds. -/
theorem ffuRead_spec {img : FfuImage} {ds : List FfuDescriptor} (ho : img.Opened ds) {s : FfuState}
    (hs : s.Sound img ds) (off len : ℕ) :
    (FfuSteady img s off → (ffuRead img s off len).2.Sound img ds)
      ∧ ∀ bs, (ffuRead img s off len).1 = .ok bs → (ffuRead img s off len).2.Sound img ds
        ∧ bs.length = min len (img.blockSize - off % img.blockSize)
        ∧ Agrees (FfuByte img ds) off bs := by
  by_cases hout : img.totalBytes < off ∨ img.totalBytes - off < len
  · simp only [ffuRead, hout, if_true]
    exact ⟨fun _ => hs, fun bs h => by cases h⟩
  by_cases hlen : len = 0
  · rw [ffuRead, if_neg hout, if_pos hlen]
    refine ⟨fun _ => hs, fun bs h => ⟨hs, ?_⟩⟩
    obtain rfl := Except.ok.inj h
    rw [hlen, Nat.zero_min]
    exact ⟨rfl, trivial⟩
  have hmod := Nat.mod_lt off ho.block_pos
  have hv : off / img.blockSize < img.totalBlocks := by
    rw [Nat.div_lt_iff_lt_mul ho.block_pos, ← ho.bytes]
    omega
  have htotal := ho.holds.total_lt
  have hmod32 : off / img.blockSize % 2 ^ 32 = off / img.blockSize := Nat.mod_eq_of_lt (by omega)
  have hlookup := ffuLookup_spec ho.holds hv
  -- within the block the number of the block stays
  have hplace : ∀ {i}, i < min len (img.blockSize - off % img.blockSize) →
      (off + i) / img.blockSize = off / img.blockSize
        ∧ (off + i) % img.blockSize = off % img.blockSize + i :=
    fun hi => div_mod_add_of_lt (by omega)
  simp only [ffuRead, hout, hlen, if_false, FfuSteady, hmod32]
  cases hl : ffuLookup img (off / img.blockSize) with
  | none =>
    rw [hl] at hlookup
    refine ⟨fun _ => hs, fun bs h => ⟨hs, ?_⟩⟩
    obtain rfl := Except.ok.inj h
    refine ⟨List.length_replicate, agrees_iff_getElem.mpr fun i hi => ?_⟩
    rw [List.length_replicate] at hi
    rw [List.getElem_replicate]
    refine Or.inr ⟨fun k => ?_, rfl⟩
    rw [(hplace hi).1]
    exact hlookup k
  | some k =>
    rw [hl] at hlookup
    have hk : k < img.ndesc := ho.holds.count ▸ (hlookup.1.lt ho.holds.disk).2
    simp only
    split_ifs with hnone
    · cases hread : ffuPread img.file s.calls
          (u64 (img.dataOff + k * img.blockSize + off % img.blockSize))
          (min len (img.blockSize - off % img.blockSize)) with
      | error e => exact ⟨fun _ => hs, fun bs h => by cases h⟩
      | ok b =>
        refine ⟨fun _ => hs, fun bs h => ⟨hs, ?_⟩⟩
        have hplain := ho.plain hnone
        have hdata := ho.data_le
        have hsize := img.file.size_lt
        have hkb : (k + 1) * img.blockSize ≤ img.ndesc * img.blockSize := Nat.mul_le_mul_right _ hk
        rw [Nat.add_mul, Nat.one_mul] at hkb
        rw [u64_of_lt (by omega)] at hread
        obtain ⟨-, rfl⟩ := ffuPread_eq_ok hread
        refine ffuByte_of_block (fun i hi => ?_) (Except.ok.inj h).symm
        refine Or.inl ⟨k, img.file.byte.from (img.dataOff + k * img.blockSize), ?_, ?_, ?_⟩
        · rw [(hplace hi).1]
          exact hlookup
        · simp only [ffuBlock, hnone, if_true]
        · rw [(hplace hi).2]
          simp only [Buf.from_apply, Nat.add_assoc]
    · obtain ⟨hsteady, hok⟩ := ffuCacheBlock_spec ho hnone hs hk
      generalize ffuCacheBlock img s k = r at hsteady hok
      obtain ⟨_ | ⟨⟩, s'⟩ := r
      · exact ⟨fun h => hsteady (h k rfl), fun bs h => by cases h⟩
      · obtain ⟨hsound, hcached⟩ := hok rfl
        simp only at hsound hcached ⊢
        refine ⟨fun _ => hsound, fun bs h => ⟨hsound, ?_⟩⟩
        have hne : s'.cached ≠ FFU_CACHED_NONE := by
          have hlt := ho.holds.count_lt
          simp only [hcached, FFU_CACHED_NONE]
          omega
        obtain ⟨block, hblock, hcache⟩ := hsound hne
        rw [hcached] at hblock
        refine ffuByte_of_block (fun i hi => ?_) (Except.ok.inj h).symm
        refine Or.inl ⟨k, block, ?_, hblock, ?_⟩
        · rw [(hplace hi).1]
          exact hlookup
        · rw [(hplace hi).2]
          exact hcache _ (by omega)

/-- The loop of `grub_ffu_read` returns the bytes asked for when it succeeds. -/
theorem grubFfuRead_spec {img : FfuImage} {ds : List FfuDescriptor} (ho : img.Opened ds)
    {s : FfuState} (hs : s.Sound img ds) {off len : ℕ} {bs : List UInt8}
    (h : (grubFfuRead img s off len).1 = .ok bs) :
    bs.length = len ∧ Agrees (FfuByte img ds) off bs := by
  have hread : ∀ s off len bs, FfuState.Sound img ds s → (ffuRead img s off len).1 = .ok bs →
      FfuState.Sound img ds (ffuRead img s off len).2 ∧ bs.length ≤ len
        ∧ Agrees (FfuByte img ds) off bs := by
    intro s off len bs hs hok
    obtain ⟨hsound, hlen, hagree⟩ := (ffuRead_spec ho hs off len).2 bs hok
    exact ⟨hsound, by omega, hagree⟩
  exact readAll_agrees hread hs h

/-! ### A broken block between two reads -/

/-- An update with two LZNT1 blocks of 512 bytes. Block 0 is one chunk stored verbatim, all ones.
Block 1 is a chunk of two nines stored verbatim and a header without its chunk. -/
def ffuTornFile : GrubFile where
  size := 3584
  byte := fun x =>
    if 2562 ≤ x ∧ x < 3074 then 1
    else Buf.ofFields [(0, [32, 0, 0, 0] ++ ascii "SignedImage " ++ [1]),
      (1024, [24, 0, 0, 0] ++ ascii "ImageFlash  " ++ [0, 0, 0, 0, 1]),
      (2048 + 4, [1, 0, 0, 0, 3]),
      (2048 + 204, [0, 2, 0, 0, 2, 0, 0, 0, 40]),
      (2296, [2]),
      (2300, [1, 0, 0, 0, 1, 0, 0, 0, 2, 2, 0, 0, 0, 0, 0, 0, 0, 0, 0, 0]),
      (2320, [1, 0, 0, 0, 1, 0, 0, 0, 6, 0, 0, 0, 0, 0, 0, 0, 1, 0, 0, 0]),
      (2560, [0xff, 0x01]),
      (3074, [0x01, 0x00, 9, 9, 0xff, 0x0f])] x
  fault := fun _ _ => none
  size_lt := by decide

/-- The image in that file. -/
def ffuTornImage : FfuImage :=
  (ffuOpenImage ffuTornFile fun _ => none).toOption.get (by decide +kernel)

theorem ffuOpenImage_torn : ffuOpenImage ffuTornFile (fun _ => none) = .ok ffuTornImage :=
  eq_ok_get _

theorem grubFfuRead_spec_torn : ∃ ds, ffuTornImage.Opened ds ∧ [(1 : UInt8), 1].length = 2
    ∧ Agrees (FfuByte ffuTornImage ds) 3 [1, 1] := by
  obtain ⟨store, hstore, ho⟩ := ffuOpenImage_opened ffuOpenImage_torn
  exact ⟨_, ho, grubFfuRead_spec ho (FfuState.sound_init _ _ fun _ => 0) (by decide +kernel)⟩

theorem FfuByte.unique {img : FfuImage} {ds : List FfuDescriptor} {x : ℕ} {b b' : UInt8}
    (h : FfuByte img ds x b) (h' : FfuByte img ds x b') : b = b' := by
  rcases h with ⟨k, block, hk, hblock, rfl⟩ | ⟨hnone, rfl⟩
  · rcases h' with ⟨k', block', hk', hblock', rfl⟩ | ⟨hnone, -⟩
    · obtain rfl := Nat.le_antisymm (hk'.2 k hk.1) (hk.2 k' hk'.1)
      rw [Option.some.inj (hblock.symm.trans hblock')]
    · exact absurd hk.1 (hnone k)
  · rcases h' with ⟨k', block', hk', -⟩ | ⟨-, rfl⟩
    · exact absurd hk'.1 (hnone k')
    · rfl

end FsRover
