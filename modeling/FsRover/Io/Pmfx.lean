import Mathlib.Order.Basic
import FsRover.Io.Carrier
import FsRover.Lib.Guards

/-!
# PMFX images

`pmfx.c`: a disk in blocks of a fixed number of sectors, each stored compressed where a table says.
The number of table entries is narrowed to 32 bits before it is compared with the capacity that the
header declares, and disks of up to `2 ^ 48` bytes may have blocks of a single sector.

`grub_dgcomp_block` is a parameter: what it makes of a stored block is a function of the bytes and
the length asked for, and on success it fills that length.

## Main definitions

* `FsRover.pmfxByte` : the byte at a place of the disk, from the table and the stored blocks.
* `FsRover.PmfxExact` : the table covers the disk, and reads return its bytes.

## Main results

* `FsRover.pmfxRead_spec` : what one piece of a read keeps and returns.
* `FsRover.pmfx_exact_iff` : an accepted image is exact when its block count fits into 32 bits.
-/

namespace FsRover

open Guards History

/-- `grub_dgcomp_block` on the stored bytes for `want` bytes; `torn` is what the destination holds
after it failed. -/
structure DgcompBlock where
  block : List UInt8 → ℕ → Except GrubError (List UInt8)
  torn : List UInt8 → ℕ → Buf → Buf
  length_block : ∀ raw want out, block raw want = .ok out → out.length = want

def PMFX_HDR_SECTOR_SIZE : ℕ := 0x10
def PMFX_HDR_SECTORS : ℕ := 0x14
def PMFX_HDR_BLOCK_SECTORS : ℕ := 0x1c
def PMFX_HDR_TABLE_CAP : ℕ := 0x20
def PMFX_HDR_DISK : ℕ := 0x100
def PMFX_HDR_SIZE : ℕ := 0x110
def PMFX_TABLE_OFF : ℕ := 0x1000
def PMFX_ENTRY_SIZE : ℕ := 16
def PMFX_TABLE_CAP_MAX : ℕ := 2 ^ 22
def PMFX_BLOCK_MAX : ℕ := 64 * 2 ^ 20
def PMFX_DISK_MAX : ℕ := 2 ^ 48

/-- `struct pmfx_block`: where a stored block lies; its length is zero for a block that was never
written. -/
structure PmfxBlock where
  off : ℕ
  comp : ℕ
  deriving DecidableEq, Repr

/-- `struct pmfx_image` without the cache. -/
structure PmfxImage where
  carrier : GrubFile
  size : ℕ
  bsize : ℕ
  nblocks : ℕ
  blk : ℕ → PmfxBlock

/-- The cache of `struct pmfx_image`; `calls` counts the reads of the carrier. -/
structure PmfxState where
  cache : Buf
  cached : ℕ
  haveCache : Bool
  calls : ℕ

/-- `pmfx_pread`: call number `call` of the carrier. -/
def pmfxPread (carrier : GrubFile) (call off len : ℕ) : Except (GrubError × Option Buf) Buf :=
  carrier.pread call off len ⟨.badDevice, "pmfx image truncated"⟩

/-! ### Opening -/

/-- Entry `i` of the table, as it is stored in the image. -/
def pmfxEntry (table : Buf) (i : ℕ) : PmfxBlock :=
  let off := lostLe64 table (i * PMFX_ENTRY_SIZE)
  let comp := lostLe32 table (i * PMFX_ENTRY_SIZE + 12)
  if off = 0 ∨ comp = 0 then ⟨0, 0⟩ else ⟨off, comp⟩

/-- The entry loop of `pmfx_open_image`: `n` entries from number `i` on lie in the file. -/
def pmfxCheckEntries (carrier : GrubFile) (bsize : ℕ) (table : Buf) (i : ℕ) :
    ℕ → Except GrubError Unit
  | 0 => .ok ()
  | n + 1 => do
    let e := pmfxEntry table i
    refuseIf (e.comp ≠ 0 ∧ (e.off < PMFX_TABLE_OFF ∨ carrier.size < e.off
        ∨ carrier.size - e.off < e.comp ∨ bsize < e.comp))
      ⟨.badDevice, s!"bad pmfx block {i}"⟩
    pmfxCheckEntries carrier bsize table (i + 1) n

/-- `pmfx_open_image`. -/
def pmfxOpenImage (carrier : GrubFile) : Except GrubError PmfxImage := do
  let hdr ← (pmfxPread carrier 0 0 PMFX_HDR_SIZE).mapError Prod.fst
  refuseIf (¬ bytesAt hdr 0 [0x50, 0x4d, 0x46, 0x58]  -- "PMFX"
      ∨ ¬ bytesAt hdr PMFX_HDR_DISK [0x43, 0x4c, 0x44, 0x4b])  -- "CLDK"
    ⟨.badFileType, "not a pmfx image"⟩
  let bps := lostLe32 hdr PMFX_HDR_SECTOR_SIZE
  let sectors := lostLe64 hdr PMFX_HDR_SECTORS
  let spb := lostLe32 hdr PMFX_HDR_BLOCK_SECTORS
  let cap := lostLe32 hdr PMFX_HDR_TABLE_CAP
  refuseIf (bps < 512 ∨ 4096 < bps ∨ bps &&& (bps - 1) ≠ 0)
    ⟨.badDevice, s!"bad pmfx sector size {bps}"⟩
  refuseIf (spb = 0 ∨ cap = 0 ∨ PMFX_TABLE_CAP_MAX < cap) ⟨.badDevice, "bad pmfx block table"⟩
  refuseIf (PMFX_BLOCK_MAX < spb * bps) ⟨.badDevice, "bad pmfx block size"⟩
  refuseIf (sectors = 0 ∨ PMFX_DISK_MAX / bps < sectors) ⟨.badDevice, "bad pmfx disk size"⟩
  let bsize := u32 (spb * bps)
  let nblocks := u32 (u64 (sectors + spb - 1) / spb)
  refuseIf (cap < nblocks) ⟨.badDevice, "pmfx block table too small"⟩
  let table ← (pmfxPread carrier 1 PMFX_TABLE_OFF (nblocks * PMFX_ENTRY_SIZE)).mapError Prod.fst
  pmfxCheckEntries carrier bsize table 0 nblocks
  .ok ⟨carrier, u64 (sectors * bps), bsize, nblocks, pmfxEntry table⟩

/-! ### Reading -/

variable (dec : DgcompBlock) (img : PmfxImage)

/-- `pmfx_load_block`. The retry is for a last block that is stored short. -/
def pmfxLoadBlock (s : PmfxState) (nr : ℕ) : Except GrubError Unit × PmfxState :=
  if s.haveCache ∧ s.cached = nr then (.ok (), s)
  else
    let comp := (img.blk nr).comp
    match pmfxPread img.carrier s.calls (img.blk nr).off comp with
    | .error (e, _) => (.error e, { s with haveCache := false, calls := s.calls + 1 })
    | .ok raw =>
      let raw := raw.take comp
      let short := img.size % img.bsize
      match dec.block raw img.bsize with
      | .ok out => (.ok (), ⟨s.cache.write out, nr, true, s.calls + 1⟩)
      | .error e =>
        let torn := dec.torn raw img.bsize s.cache
        if nr + 1 = img.nblocks ∧ short ≠ 0 then
          let zeroed : Buf := fun i => if i < img.bsize then 0 else torn i
          match dec.block raw short with
          | .ok out => (.ok (), ⟨zeroed.write out, nr, true, s.calls + 1⟩)
          | .error e => (.error e, ⟨dec.torn raw short zeroed, s.cached, false, s.calls + 1⟩)
        else (.error e, ⟨torn, s.cached, false, s.calls + 1⟩)

/-- `pmfx_read`. -/
def pmfxRead (s : PmfxState) (off len : ℕ) : Except GrubError (List UInt8) × PmfxState :=
  let nr := u32 (off / img.bsize)
  let inBlock := off % img.bsize
  if img.size ≤ off then
    (.error ⟨.outOfRange, "read past the end of the pmfx image"⟩, s)
  else
    let len := min len (img.size - off)
    if len = 0 then (.ok [], s)
    else
      let n := min (img.bsize - inBlock) len
      if img.nblocks ≤ nr ∨ (img.blk nr).comp = 0 then (.ok (List.replicate n 0), s)
      else
        match pmfxLoadBlock dec img s nr with
        | (.error e, s) => (.error e, s)
        | (.ok (), s) => (.ok (slice s.cache inBlock n), s)

/-- `grub_pmfx_read`. -/
def grubPmfxRead (s : PmfxState) (off len : ℕ) : Except GrubError (List UInt8) × PmfxState :=
  filterRead ⟨.fileReadError, "pmfx read made no progress"⟩ (pmfxRead dec img) s off len

/-- The image after opening, with what the memory held before. -/
def PmfxState.init (cache : Buf) (calls : ℕ) : PmfxState := ⟨cache, 0, false, calls⟩

/-! ### The disk -/

/-- The block that is stored at `e`, as block `nr` of the disk. -/
def pmfxDecoded (nr : ℕ) (e : PmfxBlock) : Option (List UInt8) :=
  let raw := slice img.carrier.byte e.off e.comp
  match dec.block raw img.bsize with
  | .ok out => some out
  | .error _ =>
    if nr + 1 = img.nblocks ∧ img.size % img.bsize ≠ 0 then
      match dec.block raw (img.size % img.bsize) with
      | .ok out => some (out ++ List.replicate (img.bsize - img.size % img.bsize) 0)
      | .error _ => none
    else none

/-- The byte at `x` of the disk: a place of block `x / bsize`, or zero where that has no entry. -/
def pmfxByte (x : ℕ) : Option UInt8 :=
  let e := img.blk (x / img.bsize)
  if img.nblocks ≤ x / img.bsize ∨ e.comp = 0 then some 0
  else (pmfxDecoded dec img (x / img.bsize) e).bind fun out => out[x % img.bsize]?

/-- The number of blocks of the disk that the header describes. -/
def pmfxBlocks (carrier : GrubFile) : ℕ :=
  (lostLe64 carrier.byte PMFX_HDR_SECTORS + lostLe32 carrier.byte PMFX_HDR_BLOCK_SECTORS - 1)
    / lostLe32 carrier.byte PMFX_HDR_BLOCK_SECTORS

/-- The table has one entry for each block of the disk and is no larger than declared, and after any
requests a read that succeeds returns the bytes of the disk. -/
def PmfxExact : Prop :=
  img.nblocks = pmfxBlocks img.carrier
    ∧ img.nblocks ≤ lostLe32 img.carrier.byte PMFX_HDR_TABLE_CAP
    ∧ ∀ (cache : Buf) (calls : ℕ) (rs : List (ℕ × ℕ)) (off len : ℕ) (bs : List UInt8),
      (grubPmfxRead dec img (after (fun s r => grubPmfxRead dec img s r.1 r.2) (.init cache calls) rs)
        off len).1 = .ok bs →
        bs.length = len ∧ Agrees (fun x b => pmfxByte dec img x = some b) off bs

/-! ### What opening guarantees -/

/-- What `pmfx_open_image` guarantees; the block count is the one of the disk modulo `2 ^ 32`. -/
structure PmfxImage.Opened (carrier : GrubFile) (img : PmfxImage) : Prop where
  carrier_eq : img.carrier = carrier
  bsize_pos : 0 < img.bsize
  size_le : img.size ≤ pmfxBlocks carrier * img.bsize
  nblocks_eq : img.nblocks = u32 (pmfxBlocks carrier)
  nblocks_le : img.nblocks ≤ lostLe32 carrier.byte PMFX_HDR_TABLE_CAP

theorem pmfxOpenImage_opened {carrier : GrubFile} {img : PmfxImage}
    (h : pmfxOpenImage carrier = .ok img) : img.Opened carrier := by
  simp only [pmfxOpenImage, bind_eq_ok_iff, refuseIf_eq_ok_iff, exists_const] at h
  obtain ⟨hdr, hhdr, -, hbps, hspb, hblock, hsectors, hcap, table, -, -, -, h⟩ := h
  obtain ⟨-, rfl⟩ := GrubFile.pread_mapError_eq_ok hhdr
  obtain rfl := Except.ok.inj h
  rw [Buf.from_zero] at *
  set bps := lostLe32 carrier.byte PMFX_HDR_SECTOR_SIZE
  set sectors := lostLe64 carrier.byte PMFX_HDR_SECTORS with hsec
  set spb := lostLe32 carrier.byte PMFX_HDR_BLOCK_SECTORS with hspbdef
  simp only [not_or, Nat.not_lt] at hbps hspb hblock hsectors hcap
  have hspb_pos : 0 < spb := Nat.pos_of_ne_zero hspb.1
  have hbps_pos : 0 < bps := by omega
  have hbsize : u32 (spb * bps) = spb * bps :=
    u32_of_lt (Nat.lt_of_le_of_lt hblock (by decide : PMFX_BLOCK_MAX < 2 ^ 32))
  have hdisk : sectors * bps ≤ PMFX_DISK_MAX := (Nat.le_div_iff_mul_le hbps_pos).mp hsectors.2
  have hsectors_le : sectors ≤ PMFX_DISK_MAX :=
    Nat.le_trans (Nat.le_mul_of_pos_right _ hbps_pos) hdisk
  have hspb_lt : spb < 2 ^ 32 := lostLe32_lt _ _
  have hmax : PMFX_DISK_MAX = 2 ^ 48 := rfl
  have hsum : u64 (sectors + spb - 1) = sectors + spb - 1 := u64_of_lt (by omega)
  refine ⟨rfl, ?_, ?_, ?_, hcap⟩
  · rw [hbsize]
    exact Nat.mul_pos hspb_pos hbps_pos
  · rw [hbsize, pmfxBlocks, ← hsec, ← hspbdef]
    have hceil : sectors ≤ (sectors + spb - 1) / spb * spb := by
      have hdivmod := Nat.div_add_mod (sectors + spb - 1) spb
      have hmod := Nat.mod_lt (sectors + spb - 1) hspb_pos
      rw [Nat.mul_comm] at hdivmod
      omega
    calc u64 (sectors * bps) ≤ sectors * bps := u64_le _
      _ ≤ (sectors + spb - 1) / spb * spb * bps := Nat.mul_le_mul_right bps hceil
      _ = (sectors + spb - 1) / spb * (spb * bps) := Nat.mul_assoc _ _ _
  · rw [hsum, pmfxBlocks]

/-! ### Reads -/

/-- The cache holds the block that its number says. -/
def PmfxState.Sound (s : PmfxState) : Prop :=
  s.haveCache = true → ∃ out, pmfxDecoded dec img s.cached (img.blk s.cached) = some out
    ∧ ∀ i < img.bsize, out[i]? = some (s.cache i)

variable {dec img}

theorem Buf.getElem?_write {p : Buf} {out : List UInt8} {i : ℕ} (hi : i < out.length) :
    out[i]? = some (p.write out i) := by
  rw [Buf.write_of_lt hi, List.getElem?_eq_getElem hi, List.getD_eq_getElem?_getD,
    List.getElem?_eq_getElem hi, Option.getD_some]

/-- `pmfx_load_block` keeps the cache sound, and caches the block asked for when it succeeds. -/
theorem pmfxLoadBlock_spec {s : PmfxState} (hb : 0 < img.bsize) (hs : s.Sound dec img) (nr : ℕ) :
    (pmfxLoadBlock dec img s nr).2.Sound dec img
      ∧ ((pmfxLoadBlock dec img s nr).1 = .ok () → (pmfxLoadBlock dec img s nr).2.haveCache = true
        ∧ (pmfxLoadBlock dec img s nr).2.cached = nr) := by
  by_cases hhit : s.haveCache ∧ s.cached = nr
  · rw [pmfxLoadBlock, if_pos hhit]
    exact ⟨hs, fun _ => hhit⟩
  rw [pmfxLoadBlock, if_neg hhit]
  dsimp only
  cases hread : pmfxPread img.carrier s.calls (img.blk nr).off (img.blk nr).comp with
  | error e => exact ⟨(fun h => by cases h), fun h => by cases h⟩
  | ok raw =>
    obtain ⟨-, rfl⟩ := GrubFile.pread_eq_ok hread
    simp only [slice_from]
    cases hfull : dec.block (slice img.carrier.byte (img.blk nr).off (img.blk nr).comp) img.bsize with
    | ok out =>
      refine ⟨fun _ => ⟨out, by simp only [pmfxDecoded, hfull], fun i hi => ?_⟩, fun _ => ⟨rfl, rfl⟩⟩
      exact Buf.getElem?_write (by rwa [dec.length_block _ _ _ hfull])
    | error e =>
      simp only
      by_cases hlast : nr + 1 = img.nblocks ∧ img.size % img.bsize ≠ 0
      · rw [if_pos hlast]
        have hlt : img.size % img.bsize < img.bsize := Nat.mod_lt _ hb
        cases hshort : dec.block (slice img.carrier.byte (img.blk nr).off (img.blk nr).comp)
            (img.size % img.bsize) with
        | error e => exact ⟨(fun h => by cases h), fun h => by cases h⟩
        | ok out =>
          have hlen := dec.length_block _ _ _ hshort
          refine ⟨fun _ => ⟨out ++ List.replicate (img.bsize - img.size % img.bsize) 0, ?_,
            fun i hi => ?_⟩, fun _ => ⟨rfl, rfl⟩⟩
          · simp only [pmfxDecoded, hfull, hshort]
            exact if_pos hlast
          · simp only
            rcases Nat.lt_or_ge i out.length with hlt' | hge
            · rw [List.getElem?_append_left hlt', Buf.getElem?_write hlt']
            · rw [List.getElem?_append_right hge, List.getElem?_replicate, if_pos (by omega),
                Buf.write, if_neg (by omega), if_pos hi]
      · rw [if_neg hlast]
        exact ⟨(fun h => by cases h), fun h => by cases h⟩

/-- One piece of a read keeps the cache sound and returns the bytes of the disk, as long as the block
numbers fit into 32 bits. -/
theorem pmfxRead_spec {s : PmfxState} (hb : 0 < img.bsize) (hsize : img.size ≤ img.nblocks * img.bsize)
    (hn : img.nblocks < 2 ^ 32) (hs : s.Sound dec img) (off len : ℕ) :
    (pmfxRead dec img s off len).2.Sound dec img
      ∧ ∀ bs, (pmfxRead dec img s off len).1 = .ok bs →
        bs.length ≤ len ∧ Agrees (fun x b => pmfxByte dec img x = some b) off bs := by
  simp only [pmfxRead]
  split_ifs with hend hlen hzero
  · exact ⟨hs, fun bs h => by cases h⟩
  · refine ⟨hs, fun bs h => ?_⟩
    obtain rfl := Except.ok.inj h
    exact ⟨Nat.zero_le _, trivial⟩
  · have hnr : off / img.bsize < img.nblocks :=
      Nat.div_lt_of_lt_mul (by rw [Nat.mul_comm]; omega)
    rw [u32_of_lt (Nat.lt_trans hnr hn)] at hzero
    refine ⟨hs, fun bs h => ?_⟩
    obtain rfl := Except.ok.inj h
    refine ⟨by rw [List.length_replicate]; omega, agrees_iff_getElem.mpr fun i hi => ?_⟩
    rw [List.length_replicate] at hi
    obtain ⟨hdiv, -⟩ := div_mod_add_of_lt (m := img.bsize) (n := off) (d := i) (by omega)
    simp only [pmfxByte, hdiv, List.getElem_replicate]
    exact if_pos hzero
  · have hnr : off / img.bsize < img.nblocks :=
      Nat.div_lt_of_lt_mul (by rw [Nat.mul_comm]; omega)
    rw [u32_of_lt (Nat.lt_trans hnr hn)] at hzero ⊢
    obtain ⟨hsound, hkey⟩ := pmfxLoadBlock_spec hb hs (off / img.bsize)
    cases hload : pmfxLoadBlock dec img s (off / img.bsize) with
    | mk r s' =>
      rw [hload] at hsound hkey
      cases r with
      | error e => exact ⟨hsound, fun bs h => by cases h⟩
      | ok u =>
        refine ⟨hsound, fun bs h => ?_⟩
        obtain rfl := Except.ok.inj h
        obtain ⟨hhave, hcached⟩ := hkey rfl
        obtain ⟨out, hout, hbytes⟩ := hsound hhave
        rw [hcached] at hout
        refine ⟨by rw [length_slice]; omega, agrees_iff_getElem.mpr fun i hi => ?_⟩
        rw [length_slice] at hi
        obtain ⟨hdiv, hmod⟩ := div_mod_add_of_lt (m := img.bsize) (n := off) (d := i) (by omega)
        have hlt : off % img.bsize + i < img.bsize := by omega
        simp only [pmfxByte, hdiv, hmod, hout, getElem_slice]
        rw [if_neg hzero]
        exact hbytes _ hlt

/-- The reads of a run return the bytes of the disk, as long as the block numbers fit. -/
theorem pmfxReads_view (hb : 0 < img.bsize) (hsize : img.size ≤ img.nblocks * img.bsize)
    (hn : img.nblocks < 2 ^ 32) (cache : Buf) (calls : ℕ) (rs : List (ℕ × ℕ)) {off len : ℕ}
    {bs : List UInt8}
    (h : (grubPmfxRead dec img (after (fun s r => grubPmfxRead dec img s r.1 r.2)
      (.init cache calls) rs) off len).1 = .ok bs) :
    bs.length = len ∧ Agrees (fun x b => pmfxByte dec img x = some b) off bs := by
  have hpiece : ∀ s off len, PmfxState.Sound dec img s →
      PmfxState.Sound dec img (pmfxRead dec img s off len).2 :=
    fun s off len hs => (pmfxRead_spec hb hsize hn hs off len).1
  have hinv : ∀ s off len, PmfxState.Sound dec img s →
      PmfxState.Sound dec img (grubPmfxRead dec img s off len).2 :=
    fun s off len hs => readAll_inv hpiece len s off len hs
  have hs : (after (fun s r => grubPmfxRead dec img s r.1 r.2) (.init cache calls) rs).Sound dec img :=
    after_inv (fun s r hs => hinv s r.1 r.2 hs) (fun h => by cases h) rs
  refine readAll_agrees (fun s off len bs hs hok => ?_) hs h
  obtain ⟨hsound, hbytes⟩ := pmfxRead_spec hb hsize hn hs off len
  exact ⟨hsound, hbytes bs hok⟩

/-- An accepted image is exact if and only if the number of its blocks fits into 32 bits. -/
theorem pmfx_exact_iff (dec : DgcompBlock) {carrier : GrubFile} {img : PmfxImage}
    (h : pmfxOpenImage carrier = .ok img) :
    PmfxExact dec img ↔ pmfxBlocks carrier < 2 ^ 32 := by
  obtain ⟨hcarrier, hb, hsize, hn, hcap⟩ := pmfxOpenImage_opened h
  have hlt : img.nblocks < 2 ^ 32 := hn ▸ Nat.mod_lt _ (by decide)
  constructor
  · rintro ⟨hcover, -⟩
    rw [← hcarrier, ← hcover]
    exact hlt
  · intro hfits
    have hcover : img.nblocks = pmfxBlocks carrier := hn.trans (u32_of_lt hfits)
    refine ⟨hcarrier ▸ hcover, hcarrier ▸ hcap, fun cache calls rs off len bs hok => ?_⟩
    exact pmfxReads_view hb (hcover ▸ hsize) hlt cache calls rs hok

/-! ### A disk whose block count wraps -/

/-- A header for blocks of one 512-byte sector, a table of one entry, and this many sectors. -/
def pmfxCarrier (sectors : List UInt8) : GrubFile where
  size := PMFX_TABLE_OFF + PMFX_ENTRY_SIZE
  byte := Buf.ofFields [(0, [0x50, 0x4d, 0x46, 0x58]), (0x100, [0x43, 0x4c, 0x44, 0x4b]),
    (0x10, [0, 2, 0, 0]), (0x14, sectors), (0x1c, [1, 0, 0, 0]), (0x20, [1, 0, 0, 0])]
  fault := fun _ _ => none
  size_lt := by decide

/-- The image in it, with a block that was never written. -/
def pmfxImage (sectors : List UInt8) (count : ℕ) : PmfxImage where
  carrier := pmfxCarrier sectors
  size := count * 512
  bsize := 512
  nblocks := 1
  blk := pmfxEntry ((pmfxCarrier sectors).byte.from PMFX_TABLE_OFF)

theorem pmfxOpenImage_one : pmfxOpenImage (pmfxCarrier [1]) = .ok (pmfxImage [1] 1) := by rfl

theorem pmfxOpenImage_wrapped :
    pmfxOpenImage (pmfxCarrier [1, 0, 0, 0, 1]) = .ok (pmfxImage [1, 0, 0, 0, 1] (2 ^ 32 + 1)) := by
  rfl

/-- A decoder that fails on every block. -/
def dgcompNone : DgcompBlock where
  block := fun _ _ => .error ⟨.badCompressedData, "bad DiskGenius match"⟩
  torn := fun _ _ dest => dest
  length_block := fun _ _ _ h => by cases h

theorem pmfx_exact_one :
    PmfxExact dgcompNone (pmfxImage [1] 1) ↔ pmfxBlocks (pmfxCarrier [1]) < 2 ^ 32 :=
  pmfx_exact_iff dgcompNone pmfxOpenImage_one

/-- With `2 ^ 32 + 1` blocks the table that is accepted has one entry. -/
theorem pmfx_not_exact :
    pmfxOpenImage (pmfxCarrier [1, 0, 0, 0, 1]) = .ok (pmfxImage [1, 0, 0, 0, 1] (2 ^ 32 + 1))
      ∧ ¬ PmfxExact dgcompNone (pmfxImage [1, 0, 0, 0, 1] (2 ^ 32 + 1)) := by
  refine ⟨pmfxOpenImage_wrapped, fun h => ?_⟩
  have hcover : 1 = pmfxBlocks (pmfxCarrier [1, 0, 0, 0, 1]) := h.1
  exact absurd hcover (by decide)

end FsRover
