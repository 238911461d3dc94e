import FsRover.Io.Carrier
import FsRover.Lib.Bisect
import FsRover.Lib.Guards
import FsRover.Lib.MergeRuns

/-!
# Acronis archives

The part of `tibx.c` that turns the records of the `data_map` into a table of disjoint extents and
serves reads from it. Opening the archive walks trees of pages and is not part of the model; it
hands over the records, the segment map, and the rebuilt partition table, if any.

## Main definitions

* `FsRover.TibxExtent`, `FsRover.tibxAddExtent` : one record of the `data_map`.
* `FsRover.tibxSortExtents`, `FsRover.tibxFlattenExtents` : from records to the table.
* `FsRover.tibxSegment` : a decompressed segment, through the cache.
-/

namespace FsRover

open Guards

def TIBX_PAGE_SIZE : ℕ := 4096
def TIBX_ENVELOPE : ℕ := 8
def TIBX_PAGE_BODY : ℕ := TIBX_PAGE_SIZE - TIBX_ENVELOPE
def TIBX_PAGE_MAGIC : UInt8 := 0x41
def TIBX_PAGE_DATA : UInt8 := 0xff
def TIBX_SG_MAGIC : ℕ := 0x08
def TIBX_SG_LEN : ℕ := 0x0c
def TIBX_SG_ZLEN : ℕ := 0x10
def TIBX_SG_KEY : ℕ := 0x14
def TIBX_SG_COMP : ℕ := 0x18
def TIBX_SG_PAYLOAD : ℕ := 0x2c
def TIBX_SG_FIRST_BYTES : ℕ := TIBX_PAGE_SIZE - TIBX_SG_PAYLOAD
def TIBX_COMP_NONE : ℕ := 0
def TIBX_COMP_ZSTD : ℕ := 3
def TIBX_DMAP_KEY_ID : ℕ := 23
def TIBX_EXTENT_WHOLE : ℕ := 0xffff
def TIBX_EXTENT_GRAIN : ℕ := 16
def TIBX_SEGMENT_MAX : ℕ := 64 * 2 ^ 20
def TIBX_RECORDS_MAX : ℕ := 64 * 2 ^ 20
def TIBX_SEG_CACHE : ℕ := 8

/-! ### The records of the `data_map` -/

/-- `struct tibx_extent`; `pos` is its `at`, the byte offset within the segment. -/
structure TibxExtent where
  off : ℕ
  seg : ℕ
  id : ℕ
  len : ℕ
  pos : ℕ
  deriving DecidableEq, Repr, Inhabited

namespace TibxExtent

/-- The end of the extent, in 64 bits. -/
def endAt (e : TibxExtent) : ℕ := u64 (e.off + e.len)

/-- The extent holds the byte at `x`. -/
def Has (e : TibxExtent) (x : ℕ) : Prop := e.off ≤ x ∧ x < e.off + e.len

instance (e : TibxExtent) (x : ℕ) : Decidable (e.Has x) := inferInstanceAs (Decidable (_ ∧ _))

end TibxExtent

/-- `struct tibx_place`: where a kept stream lands. -/
structure TibxPlace where
  vol : ℕ
  base : ℕ
  deriving DecidableEq, Repr, Inhabited

/-- What `tibx_add_extent` reads and writes. -/
structure TibxRecords where
  place : List TibxPlace
  curPlace : ℕ
  ext : List TibxExtent
  deriving Repr

/-- The stream `vol` in the list of places: the entry of the previous hit, else the first one. -/
def tibxFindPlace (r : TibxRecords) (vol : ℕ) : Option ℕ :=
  if (r.place[r.curPlace]?.map TibxPlace.vol) = some vol then some r.curPlace
  else r.place.findIdx? (fun p => p.vol = vol)

/-- `tibx_add_extent`. The array doubles from 1024 entries up to `TIBX_RECORDS_MAX`. -/
def tibxAddExtent (r : TibxRecords) (key val : Buf) : Except GrubError TibxRecords :=
  match tibxFindPlace r (lostBe64 key 0) with
  | none => .ok r
  | some i => do
    refuseIf (r.ext.length = TIBX_RECORDS_MAX) ⟨.outOfMemory, "too many tibx extents"⟩
    let idx := lostBe16 val 8
    .ok { r with
      curPlace := i
      ext := r.ext ++ [{
        off := u64 ((r.place.getD i default).base + lostBe64 key 8)
        len := 2 ^ 16 * byteAt key 16 + 2 ^ 8 * byteAt key 17 + byteAt key 18
        id := lostBe64 key TIBX_DMAP_KEY_ID
        seg := lostBe64 val 0
        pos := if idx = TIBX_EXTENT_WHOLE then 0 else idx * TIBX_EXTENT_GRAIN }] }

/-! ### The table -/

/-- The order of `tibx_sort_extents`: `l` stays in front of `r` unless `r` starts first, or at the
same place with a greater id. -/
def tibxLe (l r : TibxExtent) : Bool := !(r.off < l.off || (r.off = l.off && l.id < r.id))

/-- `tibx_sort_extents`. With at most `TIBX_RECORDS_MAX` extents no index leaves 32 bits. -/
def tibxSortExtents (ext : List TibxExtent) : List TibxExtent := MergeRuns.sort tibxLe ext

/-- The loop of `tibx_flatten_extents`. -/
def tibxFlattenFrom (covered : ℕ) : List TibxExtent → List TibxExtent
  | [] => []
  | e :: es =>
    if e.endAt ≤ covered then tibxFlattenFrom covered es
    else if e.off < covered then
      { e with
        pos := (e.pos + (covered - e.off)) % 2 ^ 32
        len := e.len - (covered - e.off)
        off := covered } :: tibxFlattenFrom e.endAt es
    else e :: tibxFlattenFrom e.endAt es

/-- `tibx_flatten_extents`. -/
def tibxFlattenExtents (ext : List TibxExtent) : List TibxExtent := tibxFlattenFrom 0 ext

/-! ### Segments -/

/-- `struct tibx_seg`. -/
structure TibxSeg where
  id : ℕ
  page : ℕ
  deriving DecidableEq, Repr, Inhabited

/-- `struct tibx_cached_seg`, without the empty slots. -/
structure TibxCachedSeg where
  id : ℕ
  data : List UInt8
  age : ℕ
  deriving DecidableEq, Repr

/-- `struct tibx_image` as opening leaves it. `zstd stored len` is what `ZSTD_decompress` makes of
the stored bytes when it has room for `len` bytes. -/
structure TibxImage where
  file : GrubFile
  pages : ℕ
  size : ℕ
  ext : List TibxExtent
  seg : List TibxSeg
  synth : Option (List UInt8)
  synthAt : ℕ
  zstd : List UInt8 → ℕ → Option (List UInt8)

/-- What reading changes in `struct tibx_image`. The cache has `TIBX_SEG_CACHE` slots; `calls`
counts the segments loaded. -/
structure TibxState where
  cur : ℕ
  cache : List (Option TibxCachedSeg)
  clock : ℕ
  calls : ℕ

/-- The state after opening. -/
def TibxState.init : TibxState := ⟨0, List.replicate TIBX_SEG_CACHE none, 0, 0⟩

/-- `tibx_pread`. -/
def tibxPread (img : TibxImage) (call off len : ℕ) : Except GrubError Buf :=
  (img.file.pread call off len ⟨.badDevice, "tibx image truncated"⟩).mapError Prod.fst

/-- The continuation pages in `tibx_read_stored`: `rest` bytes are left after `page`. -/
def tibxReadPages (img : TibxImage) (call : ℕ) : ℕ → ℕ → ℕ → Except GrubError (List UInt8)
  | _, _, 0 => .ok []
  | 0, _, _ + 1 => .ok []
  | fuel + 1, page, rest + 1 => do
    let take := min (rest + 1) TIBX_PAGE_BODY
    let b ← tibxPread img call ((page + 1) * TIBX_PAGE_SIZE + TIBX_ENVELOPE) take
    let bs ← tibxReadPages img call fuel (page + 1) (rest + 1 - take)
    .ok (b.take take ++ bs)

/-- `tibx_read_stored`. -/
def tibxReadStored (img : TibxImage) (call page zlen : ℕ) : Except GrubError (List UInt8) := do
  let done := min zlen TIBX_SG_FIRST_BYTES
  let b ← tibxPread img call (page * TIBX_PAGE_SIZE + TIBX_SG_PAYLOAD) done
  let bs ← tibxReadPages img call zlen page (zlen - done)
  .ok (b.take done ++ bs)

/-- `tibx_load_segment`. -/
def tibxLoadSegment (img : TibxImage) (call page : ℕ) : Except GrubError (List UInt8) := do
  refuseIf (img.pages ≤ page) ⟨.badDevice, s!"tibx segment page {page} is past the end"⟩
  let hdr ← tibxPread img call (page * TIBX_PAGE_SIZE) TIBX_SG_PAYLOAD
  refuseIf (hdr 0 ≠ TIBX_PAGE_MAGIC ∨ hdr 1 ≠ TIBX_PAGE_DATA
    ∨ bytesAt hdr TIBX_SG_MAGIC [0x53, 0x47, 0, 1] = false)
    ⟨.badDevice, s!"no tibx segment on page {page}"⟩
  let len := lostBe32 hdr TIBX_SG_LEN
  let zlen := lostBe32 hdr TIBX_SG_ZLEN
  let comp := lostBe16 hdr TIBX_SG_COMP
  refuseIf (lostBe32 hdr TIBX_SG_KEY ≠ 0)
    ⟨.notImplementedYet, "encrypted tibx archives are not supported"⟩
  refuseIf (len = 0 ∨ TIBX_SEGMENT_MAX < len ∨ TIBX_SEGMENT_MAX < zlen)
    ⟨.badDevice, "bad tibx segment size"⟩
  let raw ← tibxReadStored img call page zlen
  if comp / 2 ^ 8 = TIBX_COMP_NONE then do
    refuseIf (zlen ≠ len) ⟨.badDevice, "bad stored tibx segment"⟩
    .ok raw
  else do
    refuseIf (comp / 2 ^ 8 ≠ TIBX_COMP_ZSTD) ⟨.notImplementedYet, s!"unknown tibx codec {comp}"⟩
    match img.zstd raw len with
    | none => .error ⟨.badCompressedData, s!"bad tibx segment on page {page}"⟩
    | some plain => do
      refuseIf (plain.length ≠ len) ⟨.badCompressedData, s!"bad tibx segment on page {page}"⟩
      .ok plain

/-- `tibx_find_segment`. -/
def tibxFindSegment (img : TibxImage) (id : ℕ) : Option TibxSeg :=
  match img.seg[Bisect.search (fun i => (img.seg.getD i default).id < id) img.seg.length]? with
  | none => none
  | some s => if s.id = id then some s else none

/-- The slot that holds segment `id`, the first of several, with its index; `i` is the index of the
first slot in the list. -/
def tibxCached (id : ℕ) (i : ℕ) : List (Option TibxCachedSeg) → Option (ℕ × TibxCachedSeg)
  | [] => none
  | none :: cs => tibxCached id (i + 1) cs
  | some c :: cs => if c.id = id then some (i, c) else tibxCached id (i + 1) cs

/-- The slot of the least age, the first of several; `best` is the one found so far. -/
def tibxOldest (i : ℕ) (best : ℕ × ℕ) : List (Option TibxCachedSeg) → ℕ
  | [] => best.1
  | none :: cs => tibxOldest (i + 1) best cs
  | some c :: cs => tibxOldest (i + 1) (if c.age < best.2 then (i, c.age) else best) cs

/-- The slot `tibx_segment` fills: the first empty one, else the oldest. -/
def tibxVictim (cache : List (Option TibxCachedSeg)) : ℕ :=
  match cache.findIdx? (·.isNone) with
  | some i => i
  | none => tibxOldest 0 (0, 2 ^ 32) cache

/-- `tibx_segment`: from the cache, else loaded into it. -/
def tibxSegment (img : TibxImage) (s : TibxState) (id : ℕ) :
    Except GrubError (List UInt8) × TibxState :=
  let clock := (s.clock + 1) % 2 ^ 32
  match tibxCached id 0 s.cache with
  | some (i, c) => (.ok c.data, { s with cache := s.cache.set i (some { c with age := clock }), clock })
  | none =>
    match tibxFindSegment img id with
    | none => (.error ⟨.badDevice, s!"tibx segment {id} is not mapped"⟩, s)
    | some seg =>
      match tibxLoadSegment img s.calls seg.page with
      | .error e => (.error e, { s with calls := s.calls + 1 })
      | .ok plain =>
        (.ok plain, { s with
          cache := s.cache.set (tibxVictim s.cache) (some ⟨id, plain, clock⟩)
          clock
          calls := s.calls + 1 })

/-! ### Reads -/

/-- The extent at index `i` of the table. -/
def TibxImage.extent (img : TibxImage) (i : ℕ) : TibxExtent := img.ext.getD i default

/-- `tibx_find_extent`: the last extent that starts at or before `off`. -/
def tibxFindExtent (img : TibxImage) (s : TibxState) (off : ℕ) : Option ℕ × TibxState :=
  if s.cur < img.ext.length ∧ (img.extent s.cur).off ≤ off
      ∧ (s.cur + 1 = img.ext.length ∨ off < (img.extent (s.cur + 1)).off) then
    (some s.cur, s)
  else
    let lo := Bisect.search (fun i => (img.extent i).off ≤ off) img.ext.length
    if lo = 0 then (none, s) else (some (lo - 1), { s with cur := lo - 1 })

/-- How far `tibx_read` goes at `off` when no extent holds it: to the next extent, or to the end. -/
def tibxGap (img : TibxImage) (nr : Option ℕ) (off : ℕ) : ℕ :=
  match nr with
  | none => sub64 (img.extent 0).off off
  | some k =>
    if k + 1 < img.ext.length then sub64 (img.extent (k + 1)).off off else sub64 img.size off

/-- The end of `tibx_read`: copy out of the segment of `e`, as far as it goes. -/
def tibxCopy (img : TibxImage) (s : TibxState) (e : TibxExtent) (off n : ℕ) :
    Except GrubError (List UInt8) × TibxState :=
  match tibxSegment img s e.seg with
  | (.error err, s) => (.error err, s)
  | (.ok seg, s) =>
    if seg.length < e.pos then (.error ⟨.badDevice, "bad tibx extent offset"⟩, s)
    else
      let pos := (e.pos + (off - e.off)) % 2 ^ 32
      if seg.length ≤ pos then (.ok (List.replicate n 0), s)
      else (.ok (History.slice (fun i => seg.getD i 0) pos (min n (seg.length - pos))), s)

/-- The part of `tibx_read` behind the rebuilt partition table. -/
def tibxReadExtents (img : TibxImage) (s : TibxState) (off len : ℕ) :
    Except GrubError (List UInt8) × TibxState :=
  match tibxFindExtent img s off with
  | (none, s) => (.ok (List.replicate (min (tibxGap img none off) len) 0), s)
  | (some k, s) =>
    let e := img.extent k
    if e.endAt ≤ off then (.ok (List.replicate (min (tibxGap img (some k) off) len) 0), s)
    else
      let n := min (sub64 e.endAt off) len
      if e.seg = 0 then (.ok (List.replicate n 0), s) else tibxCopy img s e off n

/-- `tibx_read`. -/
def tibxRead (img : TibxImage) (s : TibxState) (off len : ℕ) :
    Except GrubError (List UInt8) × TibxState :=
  if img.size ≤ off then
    (.error ⟨.outOfRange, "read past the end of the tibx volume"⟩, s)
  else
    let len := min len (img.size - off)
    if len = 0 then (.ok [], s)
    else
      match img.synth with
      | none => tibxReadExtents img s off len
      | some synth =>
        if off < img.synthAt then tibxReadExtents img s off (min len (img.synthAt - off))
        else if off < img.synthAt + synth.length then
          (.ok (History.slice (fun i => synth.getD i 0) (off - img.synthAt)
            (min len (img.synthAt + synth.length - off))), s)
        else tibxReadExtents img s off len

/-- `grub_tibx_read`. -/
def grubTibxRead (img : TibxImage) (s : TibxState) (off len : ℕ) :
    Except GrubError (List UInt8) × TibxState :=
  filterRead ⟨.fileReadError, "tibx read made no progress"⟩ (tibxRead img) s off len

end FsRover
