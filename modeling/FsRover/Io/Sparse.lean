import FsRover.Io.Carrier
import FsRover.Lib.Guards

/-!
# Android sparse images

`sparse.c`: a header, and chunks one behind the other, each with a header and its data. The chunk
table has an entry for each chunk with blocks, one for the blocks that no chunk reaches, and one that
only ends the table.

## Main definitions

* `FsRover.sparseByte` : the byte at a place of the image, from the chunks in the file.

## Main results

* `FsRover.sparseOpenImage_table` : the table of an accepted image.
* `FsRover.sparse_reads_exact` : reads of an accepted image return its bytes.
-/

namespace FsRover

open Guards History

def SPARSE_MAGIC : ℕ := 0xed26ff3a
def SPARSE_MAJOR_VERSION : ℕ := 1
def SPARSE_HEADER_SIZE : ℕ := 28
def SPARSE_CHUNK_HEADER_SIZE : ℕ := 12
def SPARSE_CHUNK_RAW : ℕ := 0xcac1
def SPARSE_CHUNK_FILL : ℕ := 0xcac2
def SPARSE_CHUNK_DONT_CARE : ℕ := 0xcac3
def SPARSE_CHUNK_CRC32 : ℕ := 0xcac4
def SPARSE_FILL_SIZE : ℕ := 4
def SPARSE_BLOCK_SIZE_MAX : ℕ := 16 * 2 ^ 20
def SPARSE_NCHUNKS_MAX : ℕ := 4 * 2 ^ 20
def SPARSE_PHY_DONT_CARE : ℕ := 0
def SPARSE_PHY_FILL : ℕ := 1

/-- `struct sparse_chunk`; `phyOff` is one of the two markers or the place of the data. -/
structure SparseChunk where
  phyOff : ℕ
  virtBlk : ℕ
  fill : Buf
  deriving Inhabited

/-- `struct sparse_image` without the cached index. -/
structure SparseImage where
  file : GrubFile
  totalBytes : ℕ
  blockSize : ℕ
  chunks : List SparseChunk

/-- The cached index; `calls` counts the reads of the file. -/
structure SparseState where
  cachedNr : ℕ
  calls : ℕ

/-- `sparse_pread`. -/
def sparsePread (file : GrubFile) (call off len : ℕ) : Except GrubError Buf :=
  (file.pread call off len ⟨.badDevice, "sparse image truncated"⟩).mapError Prod.fst

/-! ### Opening -/

variable (file : GrubFile) (blkSz totalBlks chunkHdrSz : ℕ)

/-- The table entry of a chunk with blocks: the `switch` of `sparse_open_image`. -/
def sparseChunk (call type nblocks stored dataOff virtBlk : ℕ) : Except GrubError SparseChunk :=
  if type = SPARSE_CHUNK_RAW then do
    refuseIf (nblocks * blkSz ≠ stored) ⟨.badDevice, "bad sparse raw chunk size"⟩
    .ok ⟨dataOff, virtBlk, fun _ => 0⟩
  else if type = SPARSE_CHUNK_FILL then do
    refuseIf (stored ≠ SPARSE_FILL_SIZE) ⟨.badDevice, "bad sparse fill chunk size"⟩
    let fill ← sparsePread file call dataOff SPARSE_FILL_SIZE
    .ok ⟨SPARSE_PHY_FILL, virtBlk, fill⟩
  else if type = SPARSE_CHUNK_DONT_CARE then do
    refuseIf (stored ≠ 0) ⟨.badDevice, "bad sparse hole chunk size"⟩
    .ok ⟨SPARSE_PHY_DONT_CARE, virtBlk, fun _ => 0⟩
  else
    .error ⟨.badDevice, s!"unknown sparse chunk type 0x{String.ofList (Nat.toDigits 16 type)}"⟩

/-- The chunk loop of `sparse_open_image`, with the block behind the last chunk. -/
def sparseChunks : ℕ → ℕ → ℕ → ℕ → Except GrubError (List SparseChunk × ℕ)
  | 0, _, _, virtBlk => .ok ([], virtBlk)
  | left + 1, call, off, virtBlk => do
    let chdr ← sparsePread file call off SPARSE_CHUNK_HEADER_SIZE
    let type := lostLe16 chdr 0
    let nblocks := lostLe32 chdr 4
    refuseIf (lostLe32 chdr 8 < chunkHdrSz) ⟨.badDevice, "short sparse chunk"⟩
    let stored := lostLe32 chdr 8 - chunkHdrSz
    let next ← require (grubAdd off (lostLe32 chdr 8)) ⟨.badDevice, "sparse image truncated"⟩
    refuseIf (file.size < next) ⟨.badDevice, "sparse image truncated"⟩
    refuseIf (totalBlks - virtBlk < nblocks) ⟨.badDevice, "oversized sparse chunk"⟩
    if type = SPARSE_CHUNK_CRC32 then do
      refuseIf (nblocks ≠ 0 ∨ stored ≠ SPARSE_FILL_SIZE) ⟨.badDevice, "bad sparse CRC32 chunk"⟩
      sparseChunks left (call + 2) next virtBlk
    else do
      refuseIf (nblocks = 0) ⟨.badDevice, "empty sparse chunk"⟩
      let chunk ← sparseChunk file blkSz (call + 1) type nblocks stored (off + chunkHdrSz) virtBlk
      let (chunks, endBlk) ← sparseChunks left (call + 2) next (virtBlk + nblocks)
      .ok (chunk :: chunks, endBlk)

/-- The entry for the blocks that no chunk reaches. -/
def sparseTail (virtBlk : ℕ) : List SparseChunk :=
  if virtBlk < totalBlks then [⟨SPARSE_PHY_DONT_CARE, virtBlk, fun _ => 0⟩] else []

/-- `sparse_open_image`. -/
def sparseOpenImage : Except GrubError SparseImage := do
  let hdr ← sparsePread file 0 0 SPARSE_HEADER_SIZE
  refuseIf (lostLe32 hdr 0 ≠ SPARSE_MAGIC) ⟨.badSignature, "not an Android sparse image"⟩
  refuseIf (lostLe16 hdr 4 ≠ SPARSE_MAJOR_VERSION)
    ⟨.notImplementedYet, s!"unsupported sparse image version {lostLe16 hdr 4}"⟩
  let hdrSz := lostLe16 hdr 8
  let chunkHdrSz := lostLe16 hdr 10
  let blkSz := lostLe32 hdr 12
  let totalBlks := lostLe32 hdr 16
  let totalChunks := lostLe32 hdr 20
  refuseIf (hdrSz < SPARSE_HEADER_SIZE ∨ chunkHdrSz < SPARSE_CHUNK_HEADER_SIZE)
    ⟨.badDevice, "bad sparse header size"⟩
  refuseIf (blkSz = 0 ∨ blkSz % 4 ≠ 0 ∨ SPARSE_BLOCK_SIZE_MAX < blkSz)
    ⟨.badDevice, "bad sparse block size"⟩
  refuseIf (totalBlks = 0) ⟨.badDevice, "empty sparse image"⟩
  refuseIf (SPARSE_NCHUNKS_MAX < totalChunks) ⟨.badDevice, "bad sparse chunk count"⟩
  let (chunks, endBlk) ← sparseChunks file blkSz totalBlks chunkHdrSz totalChunks 1 hdrSz 0
  .ok {
    file
    totalBytes := u64 (totalBlks * blkSz)
    blockSize := blkSz
    chunks := chunks ++ sparseTail totalBlks endBlk ++ [⟨SPARSE_PHY_DONT_CARE, totalBlks, fun _ => 0⟩] }

/-! ### Reading -/

variable (img : SparseImage)

/-- The doubling loop of `sparse_fill`. -/
def sparseFillLoop (len : ℕ) : ℕ → List UInt8 → List UInt8
  | 0, dest => dest
  | fuel + 1, dest =>
    if dest.length < len then
      sparseFillLoop len fuel (dest ++ dest.take (min (len - dest.length) dest.length))
    else dest

/-- `sparse_fill`. Every round adds a byte at least. -/
def sparseFill (len : ℕ) (pattern : Buf) (phase : ℕ) : List UInt8 :=
  sparseFillLoop len len
    (((List.range SPARSE_FILL_SIZE).map fun i => pattern ((phase + i) % SPARSE_FILL_SIZE)).take len)

def SparseImage.virtBlk (nr : ℕ) : ℕ := (img.chunks.getD nr default).virtBlk

/-- The search of `sparse_read`, between `lo` and `hi`. -/
def sparseSearch (blk : ℕ) : ℕ → ℕ → ℕ → ℕ
  | 0, lo, _ => lo
  | fuel + 1, lo, hi =>
    if 1 < hi - lo then
      if blk < img.virtBlk (lo + (hi - lo) / 2) then sparseSearch blk fuel lo (lo + (hi - lo) / 2)
      else sparseSearch blk fuel (lo + (hi - lo) / 2) hi
    else lo

/-- The chunk of a block: the cached one, or the one that is found. -/
def sparseFind (nr blk : ℕ) : ℕ :=
  if blk < img.virtBlk nr ∨ img.virtBlk (nr + 1) ≤ blk then
    sparseSearch img blk img.chunks.length 0 (img.chunks.length - 1)
  else nr

/-- `sparse_read`. -/
def sparseRead (s : SparseState) (off len : ℕ) : Except GrubError (List UInt8) × SparseState :=
  if img.totalBytes < off ∨ img.totalBytes - off < len then
    (.error ⟨.outOfRange, "read past end of sparse image"⟩, s)
  else if len = 0 then (.ok [], s)
  else
    let nr := sparseFind img s.cachedNr (off / img.blockSize)
    let chunk := img.chunks.getD nr default
    let inChunk := off - chunk.virtBlk * img.blockSize
    let len := min len (img.virtBlk (nr + 1) * img.blockSize - off)
    if chunk.phyOff = SPARSE_PHY_DONT_CARE then (.ok (List.replicate len 0), { s with cachedNr := nr })
    else if chunk.phyOff = SPARSE_PHY_FILL then
      (.ok (sparseFill len chunk.fill (inChunk % SPARSE_FILL_SIZE)), { s with cachedNr := nr })
    else
      match sparsePread img.file s.calls (chunk.phyOff + inChunk) len with
      | .error e => (.error e, ⟨nr, s.calls + 1⟩)
      | .ok buf => (.ok (buf.take len), ⟨nr, s.calls + 1⟩)

/-- `grub_sparse_read`. -/
def grubSparseRead (s : SparseState) (off len : ℕ) : Except GrubError (List UInt8) × SparseState :=
  filterRead ⟨.fileReadError, "sparse read made no progress"⟩ (sparseRead img) s off len

/-! ### The image -/

/-- The byte at `x` behind the chunk header at `off`, from the `left` chunks there: the data of a raw
chunk, the pattern of a fill chunk from the start of the chunk on, and zero in a hole and behind the
last chunk. -/
def sparseBytes : ℕ → ℕ → ℕ → UInt8
  | 0, _, _ => 0
  | left + 1, off, x =>
    let type := lostLe16 file.byte off
    let nbytes := lostLe32 file.byte (off + 4) * blkSz
    let dataOff := off + chunkHdrSz
    let next := off + lostLe32 file.byte (off + 8)
    if x < nbytes then
      if type = SPARSE_CHUNK_RAW then file.byte (dataOff + x)
      else if type = SPARSE_CHUNK_FILL then file.byte (dataOff + x % 4)
      else 0
    else sparseBytes left next (x - nbytes)

/-- The byte at `x` of the image in the file. -/
def sparseByte (x : ℕ) : UInt8 :=
  sparseBytes file (lostLe32 file.byte 12) (lostLe16 file.byte 10) (lostLe32 file.byte 20)
    (lostLe16 file.byte 8) x

/-- The size of the image in the file. -/
def sparseSize : ℕ := lostLe32 file.byte 16 * lostLe32 file.byte 12

/-- The table is sorted and has no gap from block 0 to the end of the image. -/
def SparseTableOk : Prop :=
  img.virtBlk 0 = 0
    ∧ (∀ nr, nr + 1 < img.chunks.length → img.virtBlk nr < img.virtBlk (nr + 1))
    ∧ img.virtBlk (img.chunks.length - 1) = lostLe32 file.byte 16

/-- After any reads, a read returns the bytes of the image, and fails only outside it or where the
file cannot be read. -/
def SparseReadsOk : Prop :=
  ∀ (calls : ℕ) (rs : List (ℕ × ℕ)) (off len : ℕ),
    let s := after (fun s r => grubSparseRead img s r.1 r.2) ⟨0, calls⟩ rs
    (∀ bs, (grubSparseRead img s off len).1 = .ok bs →
      (0 < len → off + len ≤ sparseSize file) ∧ bs = slice (sparseByte file) off len)
      ∧ ((∀ call place, file.fault call place = none) → off + len ≤ sparseSize file →
        (grubSparseRead img s off len).1 = .ok (slice (sparseByte file) off len))

/-! ### The fill pattern -/

theorem take_slice {β : Type*} (view : ℕ → β) (off : ℕ) {n t : ℕ} (h : t ≤ n) :
    (slice view off n).take t = slice view off t := by
  refine List.ext_getElem (by simp [h]) fun i hi hi' => ?_
  simp

/-- The doubling keeps the pattern, since what is copied starts a whole number of patterns before. -/
theorem sparseFillLoop_eq {f : ℕ → UInt8} (hf : ∀ k i, f (4 * k + i) = f i) {len : ℕ} :
    ∀ {fuel n : ℕ}, n ≤ len → len ≤ n + fuel → (n < len → 0 < n ∧ 4 ∣ n) →
      sparseFillLoop len fuel (slice f 0 n) = slice f 0 len
  | 0, n, hle, hfuel, _ => by
    obtain rfl : n = len := by omega
    rfl
  | fuel + 1, n, hle, hfuel, hfour => by
    rw [sparseFillLoop, length_slice]
    split_ifs with hlt
    · obtain ⟨hpos, k, rfl⟩ := hfour hlt
      have hshift : slice f 0 (min (len - 4 * k) (4 * k))
          = slice f (0 + 4 * k) (min (len - 4 * k) (4 * k)) := by
        refine List.ext_getElem (by simp) fun i hi hi' => ?_
        rw [getElem_slice, getElem_slice, Nat.zero_add, Nat.zero_add, hf]
      rw [take_slice f 0 (Nat.min_le_right _ _), hshift, slice_append]
      refine sparseFillLoop_eq hf (by omega) (by omega) fun hlt' => ⟨by omega, 2 * k, by omega⟩
    · obtain rfl : n = len := by omega
      rfl

theorem sparseFill_eq (len : ℕ) (pattern : Buf) (phase : ℕ) :
    sparseFill len pattern phase = slice (fun i => pattern ((phase + i) % 4)) 0 len := by
  have hf : ∀ k i, pattern ((phase + (4 * k + i)) % 4) = pattern ((phase + i) % 4) := fun k i => by
    congr 1
    omega
  have hseed : ((List.range SPARSE_FILL_SIZE).map fun i => pattern ((phase + i) % SPARSE_FILL_SIZE)).take
      len = slice (fun i => pattern ((phase + i) % 4)) 0 (min len 4) := by
    refine List.ext_getElem (by simp [SPARSE_FILL_SIZE]) fun i hi hi' => ?_
    simp [SPARSE_FILL_SIZE]
  rw [sparseFill, hseed]
  exact sparseFillLoop_eq hf (Nat.min_le_left _ _) (by omega) fun hlt => ⟨by omega, 1, by omega⟩

/-! ### The table -/

variable {file blkSz totalBlks chunkHdrSz}

/-- The `len` bytes from the start of a chunk on. -/
def SparseHolds (file : GrubFile) (c : SparseChunk) (len : ℕ) (bytes : ℕ → UInt8) : Prop :=
  (c.phyOff = SPARSE_PHY_DONT_CARE → ∀ x < len, bytes x = 0)
    ∧ (c.phyOff = SPARSE_PHY_FILL → ∀ x < len, bytes x = c.fill (x % 4))
    ∧ (c.phyOff ≠ SPARSE_PHY_DONT_CARE → c.phyOff ≠ SPARSE_PHY_FILL →
      c.phyOff + len ≤ file.size ∧ ∀ x < len, bytes x = file.byte (c.phyOff + x))

/-- The entries cover the blocks from `virt` to `endBlk` without a gap, and have the bytes from there
on, which are zero behind `endBlk`. -/
def SparseTable (file : GrubFile) (blkSz endBlk : ℕ) : ℕ → (ℕ → UInt8) → List SparseChunk → Prop
  | virt, bytes, [] => virt = endBlk ∧ ∀ x, bytes x = 0
  | virt, bytes, c :: cs => c.virtBlk = virt ∧ ∃ n, 0 < n ∧ SparseHolds file c (n * blkSz) bytes
    ∧ SparseTable file blkSz endBlk (virt + n) (fun x => bytes (n * blkSz + x)) cs

theorem sparseChunk_spec {call type nblocks stored dataOff virtBlk : ℕ} {c : SparseChunk}
    {bytes : ℕ → UInt8} (hoff : 2 ≤ dataOff) (hend : dataOff + stored ≤ file.size)
    (hbytes : ∀ x < nblocks * blkSz, bytes x = if type = SPARSE_CHUNK_RAW then file.byte (dataOff + x)
      else if type = SPARSE_CHUNK_FILL then file.byte (dataOff + x % 4) else 0)
    (h : sparseChunk file blkSz call type nblocks stored dataOff virtBlk = .ok c) :
    c.virtBlk = virtBlk ∧ SparseHolds file c (nblocks * blkSz) bytes := by
  have hmarks : SPARSE_PHY_DONT_CARE = 0 ∧ SPARSE_PHY_FILL = 1 := ⟨rfl, rfl⟩
  rw [sparseChunk] at h
  split_ifs at h with hraw hfill hhole
  · rw [refuseIf_bind_eq_ok_iff] at h
    obtain ⟨hstored, h⟩ := h
    obtain rfl := Except.ok.inj h
    refine ⟨rfl, fun hphy => ?_, fun hphy => ?_, fun _ _ => ⟨?_, fun x hx => ?_⟩⟩
    · dsimp only at hphy
      omega
    · dsimp only at hphy
      omega
    · dsimp only
      omega
    · rw [hbytes x hx, if_pos hraw]
  · simp only [bind_eq_ok_iff, refuseIf_eq_ok_iff, exists_const] at h
    obtain ⟨hstored, fill, hread, h⟩ := h
    obtain ⟨-, rfl⟩ := GrubFile.pread_mapError_eq_ok hread
    obtain rfl := Except.ok.inj h
    refine ⟨rfl, fun hphy => ?_, fun _ x hx => ?_, fun _ hphy => absurd rfl hphy⟩
    · dsimp only at hphy
      omega
    · rw [hbytes x hx, if_neg hraw, if_pos hfill]
      rfl
  · rw [refuseIf_bind_eq_ok_iff] at h
    obtain ⟨hstored, h⟩ := h
    obtain rfl := Except.ok.inj h
    refine ⟨rfl, fun _ x hx => ?_, fun hphy => ?_, fun hphy => absurd rfl hphy⟩
    · rw [hbytes x hx, if_neg hraw, if_neg hfill]
    · dsimp only at hphy
      omega

theorem sparseChunks_spec (hhdr : 12 ≤ chunkHdrSz) : ∀ {left call off virtBlk endBlk : ℕ}
    {chunks : List SparseChunk}, virtBlk ≤ totalBlks →
      sparseChunks file blkSz totalBlks chunkHdrSz left call off virtBlk = .ok (chunks, endBlk) →
        endBlk ≤ totalBlks
          ∧ SparseTable file blkSz endBlk virtBlk (sparseBytes file blkSz chunkHdrSz left off) chunks
  | 0, call, off, virtBlk, endBlk, chunks, hvirt, h => by
    obtain ⟨rfl, rfl⟩ := Prod.mk.inj (Except.ok.inj h)
    exact ⟨hvirt, rfl, fun _ => rfl⟩
  | left + 1, call, off, virtBlk, endBlk, chunks, hvirt, h => by
    simp only [sparseChunks, bind_eq_ok_iff, refuseIf_eq_ok_iff, require_eq_ok_iff, exists_const] at h
    obtain ⟨chdr, hread, hshort, next, hnext, hsize, hbig, h⟩ := h
    obtain ⟨-, rfl⟩ := GrubFile.pread_mapError_eq_ok hread
    obtain ⟨-, rfl⟩ := grubAdd_eq_some.mp hnext
    have htype : lostLe16 (file.byte.from off) 0 = lostLe16 file.byte off := rfl
    have hblocks : lostLe32 (file.byte.from off) 4 = lostLe32 file.byte (off + 4) := rfl
    have htotal : lostLe32 (file.byte.from off) 8 = lostLe32 file.byte (off + 8) := rfl
    rw [htype, hblocks, htotal] at h
    rw [htotal] at hshort hsize
    rw [hblocks] at hbig
    split_ifs at h with hcrc
    · -- a checksum has no blocks
      rw [refuseIf_bind_eq_ok_iff] at h
      obtain ⟨hnone, h⟩ := h
      obtain ⟨hle, htable⟩ := sparseChunks_spec hhdr hvirt h
      refine ⟨hle, ?_⟩
      have hsame : sparseBytes file blkSz chunkHdrSz (left + 1) off
          = sparseBytes file blkSz chunkHdrSz left (off + lostLe32 file.byte (off + 8)) := by
        funext x
        have hzero : lostLe32 file.byte (off + 4) = 0 := by omega
        rw [sparseBytes, hzero, Nat.zero_mul, if_neg (Nat.not_lt_zero x), Nat.sub_zero]
      rwa [hsame]
    · simp only [bind_eq_ok_iff, refuseIf_eq_ok_iff, exists_const, Prod.exists] at h
      obtain ⟨hsome, chunk, hchunk, rest, endBlk', hrest, h⟩ := h
      obtain ⟨rfl, rfl⟩ := Prod.mk.inj (Except.ok.inj h)
      obtain ⟨hle, htable⟩ := sparseChunks_spec hhdr (by omega) hrest
      have hfirst : ∀ x < lostLe32 file.byte (off + 4) * blkSz,
          sparseBytes file blkSz chunkHdrSz (left + 1) off x
            = if lostLe16 file.byte off = SPARSE_CHUNK_RAW then file.byte (off + chunkHdrSz + x)
              else if lostLe16 file.byte off = SPARSE_CHUNK_FILL then
                file.byte (off + chunkHdrSz + x % 4) else 0 := fun x hx => by
        rw [sparseBytes, if_pos hx]
      obtain ⟨hvirtBlk, hholds⟩ := sparseChunk_spec (by omega) (by omega) hfirst hchunk
      have hlater : (fun x => sparseBytes file blkSz chunkHdrSz (left + 1) off
          (lostLe32 file.byte (off + 4) * blkSz + x))
            = sparseBytes file blkSz chunkHdrSz left (off + lostLe32 file.byte (off + 8)) := by
        funext x
        rw [sparseBytes, if_neg (by omega), Nat.add_sub_cancel_left]
      exact ⟨hle, hvirtBlk, _, Nat.pos_of_ne_zero hsome, hholds, hlater ▸ htable⟩

theorem SparseTable.tail {endBlk virt : ℕ} {bytes : ℕ → UInt8} {cs : List SparseChunk}
    (h : SparseTable file blkSz endBlk virt bytes cs) (hle : endBlk ≤ totalBlks) :
    SparseTable file blkSz totalBlks virt bytes (cs ++ sparseTail totalBlks endBlk) := by
  induction cs generalizing virt bytes with
  | nil =>
    obtain ⟨rfl, hzero⟩ := h
    rw [List.nil_append, sparseTail]
    split_ifs with hlt
    · refine ⟨rfl, totalBlks - virt, by omega, ⟨fun _ x _ => hzero x, fun hphy => ?_, fun hphy =>
        absurd rfl hphy⟩, by omega, fun x => hzero _⟩
      dsimp only at hphy
      exact absurd hphy (by decide)
    · exact ⟨by omega, hzero⟩
  | cons c cs ih =>
    obtain ⟨hvirt, n, hpos, hholds, hrest⟩ := h
    exact ⟨hvirt, n, hpos, hholds, ih hrest⟩

/-- The first block of the table, also where it is only the end. -/
theorem SparseTable.head {endBlk virt : ℕ} {bytes : ℕ → UInt8} {cs : List SparseChunk}
    (h : SparseTable file blkSz endBlk virt bytes cs) {last : SparseChunk} (hlast : last.virtBlk = endBlk) :
    ((cs ++ [last]).getD 0 default).virtBlk = virt := by
  cases cs with
  | nil => exact hlast.trans h.1.symm
  | cons c cs => exact h.1

/-- An entry covers the blocks up to the entry behind it, and has their bytes. -/
theorem SparseTable.entry {endBlk : ℕ} {last : SparseChunk} (hlast : last.virtBlk = endBlk) :
    ∀ {cs : List SparseChunk} {virt : ℕ} {bytes : ℕ → UInt8} {nr : ℕ} {c : SparseChunk},
      SparseTable file blkSz endBlk virt bytes cs → cs[nr]? = some c →
        virt ≤ c.virtBlk ∧ ∃ n, 0 < n
          ∧ ((cs ++ [last]).getD (nr + 1) default).virtBlk = c.virtBlk + n
          ∧ SparseHolds file c (n * blkSz) fun x => bytes ((c.virtBlk - virt) * blkSz + x)
  | [], virt, bytes, nr, c, _, hc => by cases hc
  | a :: cs, virt, bytes, 0, c, h, hc => by
    obtain rfl := Option.some.inj hc
    obtain ⟨hvirt, n, hpos, hholds, hrest⟩ := h
    refine ⟨Nat.le_of_eq hvirt.symm, n, hpos, ?_, ?_⟩
    · rw [hvirt]
      exact hrest.head hlast
    · simpa [hvirt] using hholds
  | a :: cs, virt, bytes, nr + 1, c, h, hc => by
    obtain ⟨-, n, -, -, hrest⟩ := h
    obtain ⟨hle, m, hpos, hnext, hholds⟩ := SparseTable.entry hlast hrest hc
    refine ⟨by omega, m, hpos, hnext, ?_⟩
    have hshift : ∀ x, n * blkSz + ((c.virtBlk - (virt + n)) * blkSz + x)
        = (c.virtBlk - virt) * blkSz + x := fun x => by
      rw [← Nat.add_assoc, ← Nat.add_mul]
      congr 2
      omega
    simpa only [hshift] using hholds

/-! ### Accepted images -/

/-- What `sparse_open_image` guarantees. -/
structure SparseImage.Opened (file : GrubFile) (img : SparseImage) : Prop where
  file_eq : img.file = file
  blockSize_eq : img.blockSize = lostLe32 file.byte 12
  blockSize_pos : 0 < img.blockSize
  totalBytes_eq : img.totalBytes = sparseSize file
  table : ∃ cs last, img.chunks = cs ++ [last] ∧ last.virtBlk = lostLe32 file.byte 16
    ∧ SparseTable file img.blockSize (lostLe32 file.byte 16) 0 (sparseByte file) cs

theorem sparseOpenImage_opened {img : SparseImage} (h : sparseOpenImage file = .ok img) :
    img.Opened file := by
  simp only [sparseOpenImage, bind_eq_ok_iff, refuseIf_eq_ok_iff, exists_const, Prod.exists] at h
  obtain ⟨hdr, hread, -, -, hhdr, hblock, -, -, chunks, endBlk, hchunks, h⟩ := h
  obtain ⟨-, rfl⟩ := GrubFile.pread_mapError_eq_ok hread
  obtain rfl := Except.ok.inj h
  rw [Buf.from_zero] at *
  have hmin : SPARSE_CHUNK_HEADER_SIZE = 12 := rfl
  obtain ⟨hle, htable⟩ := sparseChunks_spec (by omega) (Nat.zero_le _) hchunks
  refine ⟨rfl, rfl, by dsimp only; omega, ?_, _, _, rfl, rfl, htable.tail hle⟩
  have hmax : SPARSE_BLOCK_SIZE_MAX = 2 ^ 24 := rfl
  have hblocks := lostLe32_lt file.byte 16
  have hlt : lostLe32 file.byte 16 * lostLe32 file.byte 12 < 2 ^ 64 :=
    calc lostLe32 file.byte 16 * lostLe32 file.byte 12 ≤ 2 ^ 32 * 2 ^ 24 :=
        Nat.mul_le_mul (Nat.le_of_lt hblocks) (by omega)
      _ < 2 ^ 64 := by decide
  exact u64_of_lt hlt

variable {img : SparseImage}

theorem SparseImage.Opened.entry (ho : img.Opened file) {nr : ℕ} (hnr : nr + 1 < img.chunks.length) :
    ∃ n, 0 < n ∧ img.virtBlk (nr + 1) = img.virtBlk nr + n
      ∧ SparseHolds file (img.chunks.getD nr default) (n * img.blockSize)
        fun x => sparseByte file (img.virtBlk nr * img.blockSize + x) := by
  obtain ⟨cs, last, hcs, hlast, htable⟩ := ho.table
  rw [hcs, List.length_append, List.length_singleton] at hnr
  obtain ⟨c, hc⟩ : ∃ c, cs[nr]? = some c := ⟨_, List.getElem?_eq_getElem (by omega)⟩
  have hget : img.chunks.getD nr default = c := by
    rw [hcs, List.getD_eq_getElem?_getD, List.getElem?_append_left (by omega), hc]
    rfl
  obtain ⟨-, n, hpos, hnext, hholds⟩ := htable.entry hlast hc
  rw [← hcs] at hnext
  rw [SparseImage.virtBlk, SparseImage.virtBlk, hget]
  exact ⟨n, hpos, hnext, by simpa using hholds⟩

theorem sparseOpenImage_table (h : sparseOpenImage file = .ok img) : SparseTableOk file img := by
  have ho := sparseOpenImage_opened h
  obtain ⟨cs, last, hcs, hlast, htable⟩ := ho.table
  refine ⟨?_, fun nr hnr => ?_, ?_⟩
  · rw [SparseImage.virtBlk, hcs]
    exact htable.head hlast
  · obtain ⟨n, hpos, hnext, -⟩ := ho.entry hnr
    omega
  · rw [SparseImage.virtBlk, hcs, List.length_append, List.length_singleton, Nat.add_sub_cancel,
      List.getD_eq_getElem?_getD, List.getElem?_append_right (Nat.le_refl _), Nat.sub_self]
    exact hlast

/-! ### Reads -/

theorem sparseSearch_spec {blk : ℕ} : ∀ {fuel lo hi : ℕ}, lo < hi → hi ≤ lo + fuel + 1 →
    img.virtBlk lo ≤ blk → blk < img.virtBlk hi →
      sparseSearch img blk fuel lo hi < hi ∧ img.virtBlk (sparseSearch img blk fuel lo hi) ≤ blk
        ∧ blk < img.virtBlk (sparseSearch img blk fuel lo hi + 1)
  | 0, lo, hi, hlt, hfuel, hlo, hhi => by
    obtain rfl : hi = lo + 1 := by omega
    exact ⟨hlt, hlo, hhi⟩
  | fuel + 1, lo, hi, hlt, hfuel, hlo, hhi => by
    rw [sparseSearch]
    split_ifs with hwide hbelow
    · obtain ⟨hr, hle, hnext⟩ := @sparseSearch_spec blk fuel lo (lo + (hi - lo) / 2) (by omega)
        (by omega) hlo hbelow
      exact ⟨by omega, hle, hnext⟩
    · exact sparseSearch_spec (by omega) (by omega) (Nat.le_of_not_lt hbelow) hhi
    · obtain rfl : hi = lo + 1 := by omega
      exact ⟨hlt, hlo, hhi⟩

/-- The chunk that is found has the block, whatever chunk is cached. -/
theorem sparseFind_spec (ht : SparseTableOk file img) {nr blk : ℕ}
    (hblk : blk < lostLe32 file.byte 16) :
    sparseFind img nr blk + 1 < img.chunks.length ∧ img.virtBlk (sparseFind img nr blk) ≤ blk
      ∧ blk < img.virtBlk (sparseFind img nr blk + 1) := by
  obtain ⟨hzero, -, hlast⟩ := ht
  have hpos : 0 < img.chunks.length - 1 := by
    by_contra hnone
    rw [Nat.eq_zero_of_not_pos hnone, hzero] at hlast
    omega
  rw [sparseFind]
  split_ifs with hmiss
  · obtain ⟨hr, hle, hnext⟩ := @sparseSearch_spec img blk img.chunks.length 0 _ hpos (by omega)
      (by omega) (by omega)
    exact ⟨by omega, hle, hnext⟩
  · refine ⟨?_, by omega, by omega⟩
    by_contra hout
    have hdefault : img.virtBlk (nr + 1) = 0 := by
      rw [SparseImage.virtBlk, List.getD_eq_getElem?_getD, List.getElem?_eq_none (by omega)]
      rfl
    omega

/-- One piece of a read: it returns bytes of the image, at least one, and fails only outside the image
or where the file cannot be read. -/
theorem sparseRead_spec (ho : img.Opened file) (ht : SparseTableOk file img) (s : SparseState)
    (off len : ℕ) :
    (∀ bs, (sparseRead img s off len).1 = .ok bs → (0 < len → off + len ≤ sparseSize file)
      ∧ bs.length ≤ len ∧ Agrees (fun x b => b = sparseByte file x) off bs)
      ∧ ((∀ call place, file.fault call place = none) → off + len ≤ sparseSize file → 0 < len →
        ∃ bs, (sparseRead img s off len).1 = .ok bs ∧ 0 < bs.length ∧ bs.length ≤ len) := by
  have hsize := ho.totalBytes_eq
  rw [sparseRead]
  by_cases hout : img.totalBytes < off ∨ img.totalBytes - off < len
  · rw [if_pos hout]
    exact ⟨fun bs h => (by cases h), fun _ hend _ => by omega⟩
  rw [if_neg hout]
  by_cases hlen : len = 0
  · rw [if_pos hlen]
    refine ⟨fun bs h => ?_, fun _ _ hpos => by omega⟩
    obtain rfl := Except.ok.inj h
    exact ⟨fun hpos => by omega, Nat.zero_le _, trivial⟩
  rw [if_neg hlen]
  have hbs := ho.blockSize_pos
  have hblk : off / img.blockSize < lostLe32 file.byte 16 := by
    rw [Nat.div_lt_iff_lt_mul hbs, ho.blockSize_eq, ← sparseSize]
    omega
  obtain ⟨hnr, hfirst, hnext⟩ := @sparseFind_spec file img ht s.cachedNr _ hblk
  dsimp only
  generalize sparseFind img s.cachedNr (off / img.blockSize) = nr at *
  obtain ⟨n, hpos, hend, hdont, hfill, hraw⟩ := ho.entry hnr
  have hstart : img.virtBlk nr * img.blockSize ≤ off := (Nat.le_div_iff_mul_le hbs).mp hfirst
  have hstop : off < img.virtBlk (nr + 1) * img.blockSize := (Nat.div_lt_iff_lt_mul hbs).mp hnext
  have hspan : img.virtBlk (nr + 1) * img.blockSize
      = img.virtBlk nr * img.blockSize + n * img.blockSize := by rw [hend, Nat.add_mul]
  have hchunk : (img.chunks.getD nr default).virtBlk = img.virtBlk nr := rfl
  rw [hchunk]
  generalize img.chunks.getD nr default = chunk at *
  generalize hstartdef : img.virtBlk nr * img.blockSize = start at *
  dsimp only at hdont hfill hraw
  -- the place of a byte in the chunk
  have hplace : ∀ i, off + i = start + (off - start + i) := fun i => by omega
  by_cases hphy : chunk.phyOff = SPARSE_PHY_DONT_CARE
  · rw [if_pos hphy]
    refine ⟨fun bs h => ?_, fun _ _ _ => ⟨_, rfl, by rw [List.length_replicate]; omega,
      by rw [List.length_replicate]; omega⟩⟩
    obtain rfl := Except.ok.inj h
    refine ⟨fun _ => by omega, by rw [List.length_replicate]; omega,
      agrees_iff_getElem.mpr fun i hi => ?_⟩
    rw [List.length_replicate] at hi
    rw [List.getElem_replicate, hplace, hdont hphy _ (by omega)]
  rw [if_neg hphy]
  by_cases hpattern : chunk.phyOff = SPARSE_PHY_FILL
  · rw [if_pos hpattern, sparseFill_eq]
    refine ⟨fun bs h => ?_, fun _ _ _ => ⟨_, rfl, by rw [length_slice]; omega,
      by rw [length_slice]; omega⟩⟩
    obtain rfl := Except.ok.inj h
    refine ⟨fun _ => by omega, by rw [length_slice]; omega, agrees_iff_getElem.mpr fun i hi => ?_⟩
    rw [length_slice] at hi
    rw [getElem_slice, hplace, hfill hpattern _ (by omega)]
    congr 1
    simp only [SPARSE_FILL_SIZE]
    omega
  · rw [if_neg hpattern]
    obtain ⟨hin, hbytes⟩ := hraw hphy hpattern
    have hholds : img.file.Holds (chunk.phyOff + (off - start))
        (min len (img.virtBlk (nr + 1) * img.blockSize - off)) := by
      rw [ho.file_eq]
      exact ⟨by omega, by omega⟩
    constructor
    · intro bs h
      cases hread : sparsePread img.file s.calls (chunk.phyOff + (off - start))
          (min len (img.virtBlk (nr + 1) * img.blockSize - off)) with
      | error e =>
        rw [hread] at h
        cases h
      | ok buf =>
        rw [hread] at h
        obtain ⟨-, rfl⟩ := GrubFile.pread_mapError_eq_ok hread
        obtain rfl := Except.ok.inj h
        rw [slice_from]
        refine ⟨fun _ => by omega, by rw [length_slice]; omega,
          agrees_iff_getElem.mpr fun i hi => ?_⟩
        rw [length_slice] at hi
        rw [getElem_slice, hplace, hbytes _ (by omega), ho.file_eq]
        congr 1
        omega
    · intro hcalm _ _
      have hread : img.file.pread s.calls (chunk.phyOff + (off - start))
          (min len (img.virtBlk (nr + 1) * img.blockSize - off)) ⟨.badDevice, "sparse image truncated"⟩
            = .ok _ := GrubFile.pread_of_holds hholds (by rw [ho.file_eq]; exact hcalm s.calls _)
      rw [sparsePread, hread]
      refine ⟨_, rfl, ?_, ?_⟩
      · rw [slice_from, length_slice]
        omega
      · rw [slice_from, length_slice]
        omega

/-- Reads of an accepted image return its bytes, after any other reads. -/
theorem sparse_reads_exact (h : sparseOpenImage file = .ok img) :
    SparseTableOk file img ∧ SparseReadsOk file img := by
  have ho := sparseOpenImage_opened h
  have ht := sparseOpenImage_table h
  refine ⟨ht, fun calls rs off len => ?_⟩
  dsimp only
  generalize after (fun s r => grubSparseRead img s r.1 r.2) ⟨0, calls⟩ rs = s
  have hok : ∀ bs, (grubSparseRead img s off len).1 = .ok bs →
      (0 < len → off + len ≤ sparseSize file) ∧ bs = slice (sparseByte file) off len := by
    intro bs hbs
    have hpiece : ∀ s off len bs, True → (sparseRead img s off len).1 = .ok bs →
        True ∧ bs.length ≤ len ∧ Agrees (fun x b => b = sparseByte file x) off bs :=
      fun s off len bs _ hr => ⟨trivial, ((sparseRead_spec ho ht s off len).1 bs hr).2⟩
    obtain ⟨hlength, hagree⟩ := readAll_agrees hpiece trivial hbs
    refine ⟨fun hlen => ?_, hlength ▸ hagree.eq_slice⟩
    obtain ⟨cs, hcs⟩ := readAll_first hlen hbs
    exact ((sparseRead_spec ho ht s off len).1 cs hcs).1 hlen
  refine ⟨hok, fun hcalm hend => ?_⟩
  have hpiece : ∀ s off len, True → off + len ≤ sparseSize file → 0 < len →
      ∃ bs, (sparseRead img s off len).1 = .ok bs ∧ 0 < bs.length ∧ bs.length ≤ len ∧ True :=
    fun s off len _ hin hpos => by
      obtain ⟨bs, hbs, hsome, hle⟩ := (sparseRead_spec ho ht s off len).2 hcalm hin hpos
      exact ⟨bs, hbs, hsome, hle, trivial⟩
  obtain ⟨bs, hbs⟩ : ∃ bs, (grubSparseRead img s off len).1 = .ok bs :=
    readAll_succeeds (fun off len n hin hle => by omega) hpiece trivial hend (Nat.le_refl len)
  rw [hbs, (hok bs hbs).2]

/-- An image of two blocks of four bytes, the first of which is filled. -/
def sparseFillFile : GrubFile where
  size := 44
  byte := Buf.ofFields [(0, [0x3a, 0xff, 0x26, 0xed, 1, 0, 0, 0, 28, 0, 12, 0, 4, 0, 0, 0, 2, 0, 0, 0, 1]),
    (28, [0xc2, 0xca, 0, 0, 1, 0, 0, 0, 16, 0, 0, 0, 1, 2, 3, 4])]
  fault := fun _ _ => none
  size_lt := by decide

theorem sparse_reads_exact_fill : ∃ img, sparseOpenImage sparseFillFile = .ok img
    ∧ SparseTableOk sparseFillFile img ∧ SparseReadsOk sparseFillFile img :=
  ⟨_, eq_ok_get (by decide), sparse_reads_exact (eq_ok_get (by decide))⟩

end FsRover
