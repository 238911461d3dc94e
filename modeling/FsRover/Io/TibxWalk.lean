import FsRover.Io.Tibx
import FsRover.Lib.Memory

/-!
# Walking the trees of `.tibx` archives

The maps of an archive are trees whose cells have a key and a value of lengths that the superblock
declares. The walk feeds every live cell to a hook, which reads fixed places of the key and of the
value. Here every access to a cell buffer and to the superblock is checked.

## Main definitions

* `FsRover.TibxSafe` : no archive with these lengths makes the walk read outside a buffer.

## Main results

* `FsRover.tibxWalkTree_safe` : with a hook that reads inside the cells, the walk does.
* `FsRover.tibx_walk_iff` : the lengths for which that is so.
-/

namespace FsRover

open Outcome Memory

def TIBX_PAGE_LEAF : UInt8 := 0x03
def TIBX_PAGE_LDIR : UInt8 := 0x04
def TIBX_LSB_KEY_LEN : ℕ := 0x10
def TIBX_LSB_VAL_LEN : ℕ := 0x14
def TIBX_LSB_CTREES : ℕ := 0x18
def TIBX_LSB_CTREE_SIZE : ℕ := 32
def TIBX_LSB_MEM_ENC : ℕ := 0x158
def TIBX_LSB_MEM_COUNT : ℕ := 0x15a
def TIBX_LSB_MEM_PAYLOAD : ℕ := 0x178
def TIBX_LSB_MIN_SIZE : ℕ := 0x178
def TIBX_LSM_CELLS : ℕ := 0x06
def TIBX_CELL_GROUP_MAX : ℕ := 24
def TIBX_LSM_DEPTH_MAX : ℕ := 16
def TIBX_LSM_PAGES_MAX : ℕ := 2 ^ 24
def TIBX_CELL_BUF_MAX : ℕ := 2 ^ 20
def TIBX_VOLS_MAX : ℕ := 4096

/-- `struct tibx_vol` as `tibx_measure_volume` leaves it. -/
structure TibxVol where
  id : ℕ
  stop : ℕ
  seg : ℕ
  idx : ℕ
  head : ℕ

/-- What the walk needs of an archive: the number of pages; a page, in the read with this number; the
cells that `tibx_cell_stream` decodes from a page; and what `LZ4_decompress_safe` makes of bytes when
it has room for a length. -/
structure TibxArchive where
  pages : ℕ
  readPage : ℕ → ℕ → Except GrubError Buf
  cellStream : Buf → Except GrubError Mem
  lz4 : Buf → ℕ → ℕ → Option Buf

/-- A hook: a buffer, the places of a key and of a value in it, and what is collected. -/
abbrev TibxHook (σ : Type) : Type := Mem → ℕ → ℕ → σ → Outcome GrubError σ

/-! ### The hooks -/

/-- `tibx_add_segment`. The array doubles from 1024 entries up to `TIBX_RECORDS_MAX`. -/
def tibxSegmentHook : TibxHook (List TibxSeg) := fun m key val segs =>
  if segs.length = TIBX_RECORDS_MAX then failed ⟨.outOfMemory, "too many tibx segments"⟩
  else do
    let id ← m.field key 8
    let page ← m.field (val + 4) 4
    done (segs ++ [⟨lostBe64 id 0, lostBe32 page 0⟩])

/-- `tibx_note_head`. -/
def tibxNoteHead (m : Mem) (val len : ℕ) (v : TibxVol) : Outcome GrubError TibxVol := do
  let b ← m.field val 10
  done { v with seg := lostBe64 b 0, idx := lostBe16 b 8, head := len }

/-- `tibx_measure_volume`. The array doubles from 16 entries up to `TIBX_VOLS_MAX`. -/
def tibxMeasureHook : TibxHook (List TibxVol) := fun m key val vols => do
  let k ← m.field key 19
  let id := lostBe64 k 0
  let off := lostBe64 k 8
  let len := 2 ^ 16 * byteAt k 16 + 2 ^ 8 * byteAt k 17 + byteAt k 18
  let stop := u64 (off + len)
  match vols.findIdx? (fun v => v.id = id) with
  | some i => do
    let old := vols.getD i ⟨0, 0, 0, 0, 0⟩
    let v := { old with stop := max old.stop stop }
    let v ← if off = 0 then tibxNoteHead m val len v else done v
    done (vols.set i v)
  | none =>
    if vols.length = TIBX_VOLS_MAX then failed ⟨.outOfMemory, "too many tibx streams"⟩
    else do
      let v ← if off = 0 then tibxNoteHead m val len ⟨id, stop, 0, 0, 0⟩ else done ⟨id, stop, 0, 0, 0⟩
      done (vols ++ [v])

/-- `tibx_add_extent`: the stream of the key, and the rest if the stream is kept. -/
def tibxExtentHook : TibxHook TibxRecords := fun m key val r => do
  let vol ← m.field key 8
  match tibxFindPlace r (lostBe64 vol 0) with
  | none => done r
  | some _ =>
    if r.ext.length = TIBX_RECORDS_MAX then failed ⟨.outOfMemory, "too many tibx extents"⟩
    else do
      let k ← m.field key (TIBX_DMAP_KEY_ID + 8)
      let v ← m.field val 10
      ofExcept (tibxAddExtent r k v)

/-! ### The walk -/

variable {σ : Type} (m : Mem) (klen vlen : ℕ) (hook : TibxHook σ)

/-- The cells of a group from the bit `j` on: whether they were all inside the buffer, and the place
behind them. -/
def tibxGroup (bitmap : ℕ) : ℕ → ℕ → ℕ → σ → Outcome GrubError (Bool × ℕ × σ)
  | 0, _, pos, s => done (true, pos, s)
  | left + 1, j, pos, s =>
    let size := klen + if bitmap.testBit j then vlen else 0
    if m.len < pos + size then done (false, pos, s)
    else if bitmap.testBit j then do
      let s ← hook m pos (pos + klen) s
      tibxGroup bitmap left (j + 1) (pos + size) s
    else tibxGroup bitmap left (j + 1) (pos + size) s

/-- The loop over the groups of a leaf or of the residual tree; a bad group is an error in a leaf only.
Every group has a cell at least. -/
def tibxLeaf (strict : Bool) (ncell : ℕ) : ℕ → ℕ → ℕ → σ → Outcome GrubError σ
  | 0, _, _, s => done s
  | fuel + 1, i, pos, s =>
    if ncell ≤ i ∨ m.len < pos + 4 then done s
    else do
      let head ← m.field pos 4
      let group := byteAt head 0
      let bitmap := byteAt head 3 + 2 ^ 8 * byteAt head 2 + 2 ^ 16 * byteAt head 1
      if group = 0 ∨ TIBX_CELL_GROUP_MAX < group then
        if strict then failed ⟨.badDevice, "bad tibx cell group"⟩ else done s
      else do
        let (more, pos, s) ← tibxGroup m klen vlen hook bitmap (min group (ncell - i)) 0 (pos + 4) s
        if more then tibxLeaf strict ncell fuel (i + min group (ncell - i)) pos s else done s

/-- The loop over the cells of an interior page: a key and the place of a page. -/
def tibxDir {α : Type} (walk : ℕ → α → Outcome GrubError α) : ℕ → ℕ → α → Outcome GrubError α
  | 0, _, s => done s
  | left + 1, pos, s =>
    if m.len < pos + klen + 8 then done s
    else do
      let child ← m.field (pos + klen) 8
      let s ← walk (lostBe64 child 0 / TIBX_PAGE_SIZE) s
      tibxDir walk left (pos + klen + 8) s

variable (arc : TibxArchive)

/-- `tibx_walk_page`, at most `TIBX_LSM_DEPTH_MAX` pages below the root, on the budget and what is
collected. -/
def tibxWalkPage : ℕ → ℕ → ℕ × σ → Outcome GrubError (ℕ × σ)
  | 0, _, s => done s
  | levels + 1, page, s =>
    if arc.pages ≤ page then done s
    else if s.1 = 0 then failed ⟨.badDevice, "tibx tree too large"⟩
    else
      match arc.readPage s.1 page with
      | .error e => failed e
      | .ok raw =>
        -- a pruned or foreign page is skipped
        if raw 0 ≠ TIBX_PAGE_MAGIC ∨ (raw 1 ≠ TIBX_PAGE_LEAF ∧ raw 1 ≠ TIBX_PAGE_LDIR) then
          done (s.1 - 1, s.2)
        else
          match arc.cellStream (raw.from TIBX_ENVELOPE) with
          | .error e => failed e
          | .ok cells =>
            let ncell := lostBe16 raw (TIBX_ENVELOPE + TIBX_LSM_CELLS)
            if raw 1 = TIBX_PAGE_LDIR then
              tibxDir cells klen (fun child s => tibxWalkPage levels child s) ncell 0 (s.1 - 1, s.2)
            else do
              let t ← tibxLeaf cells klen vlen hook true ncell ncell 0 0 s.2
              done (s.1 - 1, t)

/-- The cells of the residual tree in the superblock; none where there is nothing to walk. -/
def tibxMemtreeCells (sb : Mem) (enc : ℕ) : Outcome GrubError (Option Mem) :=
  let extraLen := sb.len - TIBX_LSB_MEM_PAYLOAD
  if 0x80 ≤ enc then failed ⟨.notImplementedYet, "encrypted tibx archives are not supported"⟩
  else if enc = 0 then do
    let cells ← sb.field TIBX_LSB_MEM_PAYLOAD extraLen
    done (some ⟨extraLen, cells⟩)
  else if enc = 1 then
    if extraLen < 8 then done none
    else do
      let sizes ← sb.field TIBX_LSB_MEM_PAYLOAD 8
      if extraLen - 8 < lostBe32 sizes 0 ∨ TIBX_CELL_BUF_MAX < lostBe32 sizes 4 then
        failed ⟨.badDevice, "bad tibx mem-tree"⟩
      else do
        let stored ← sb.field (TIBX_LSB_MEM_PAYLOAD + 8) (lostBe32 sizes 0)
        match arc.lz4 stored (lostBe32 sizes 0) (lostBe32 sizes 4) with
        | none => failed ⟨.badCompressedData, "bad tibx mem-tree"⟩
        | some cells => done (some ⟨lostBe32 sizes 4, cells⟩)
  else failed ⟨.notImplementedYet, s!"unknown tibx mem-tree encoding {enc}"⟩

/-- `tibx_walk_memtree`. -/
def tibxWalkMemtree (sb : Mem) (s : σ) : Outcome GrubError σ :=
  if sb.len ≤ TIBX_LSB_MEM_PAYLOAD then done s
  else do
    let enc ← sb.get TIBX_LSB_MEM_ENC
    let count ← sb.field TIBX_LSB_MEM_COUNT 2
    let ncell := lostBe16 count 0
    if ncell = 0 ∨ klen = 0 then done s
    else do
      match ← tibxMemtreeCells arc sb enc.toNat with
      | none => done s
      | some cells => tibxLeaf cells klen vlen hook false ncell ncell 0 0 s

/-- The loop of `tibx_walk_tree` over the runs on the disk. -/
def tibxRuns (sb : Mem) : ℕ → ℕ → ℕ × σ → Outcome GrubError (ℕ × σ)
  | 0, _, s => done s
  | left + 1, i, s =>
    if sb.len < TIBX_LSB_CTREES + (i + 1) * TIBX_LSB_CTREE_SIZE then done s
    else do
      let slot ← sb.field (TIBX_LSB_CTREES + i * TIBX_LSB_CTREE_SIZE) 16
      let root := lostBe64 slot 0
      -- an empty run is either the explicit sentinel or all zeros
      if root = 2 ^ 64 - 1 ∨ (root = 0 ∧ lostBe64 slot 8 = 0) then tibxRuns sb left (i + 1) s
      else do
        let s ← tibxWalkPage klen vlen hook arc (TIBX_LSM_DEPTH_MAX + 1) (root / TIBX_PAGE_SIZE) s
        tibxRuns sb left (i + 1) s

/-- `tibx_walk_tree`. -/
def tibxWalkTree (sb : Mem) (s : σ) : Outcome GrubError σ :=
  if sb.len < TIBX_LSB_MIN_SIZE then failed ⟨.badDevice, "short tibx superblock"⟩
  else do
    let lens ← sb.field TIBX_LSB_KEY_LEN 8
    let klen := lostBe32 lens 0
    let vlen := lostBe32 lens 4
    if klen = 0 ∨ TIBX_PAGE_BODY < klen ∨ TIBX_PAGE_BODY < vlen then
      failed ⟨.badDevice, "bad tibx record sizes"⟩
    else do
      let extra ← sb.get 5
      let s ← tibxRuns klen vlen hook arc sb (extra.toNat + 2) 0 (TIBX_LSM_PAGES_MAX, s)
      tibxWalkMemtree klen vlen hook arc sb s.2

/-- The superblock declares these lengths. -/
def TibxDeclares (sb : Mem) (klen vlen : ℕ) : Prop :=
  lostBe32 sb.byte TIBX_LSB_KEY_LEN = klen ∧ lostBe32 sb.byte TIBX_LSB_VAL_LEN = vlen

/-- In no archive whose superblock declares these lengths does the walk read outside a buffer, whatever
was collected before. -/
def TibxSafe : Prop :=
  ∀ (arc : TibxArchive) (sb : Mem) (s : σ), TibxDeclares sb klen vlen →
    tibxWalkTree hook arc sb s ≠ fault

/-! ### Reading inside the cells -/

/-- The hook reads inside a cell and what is behind it in the buffer. -/
def TibxInside : Prop :=
  ∀ (m : Mem) (pos : ℕ) (s : σ), pos + klen + vlen ≤ m.len →
    (hook m pos (pos + klen) s).Safe fun _ => True

variable {m klen vlen hook arc}

theorem tibxGroup_safe (h : TibxInside klen vlen hook) {bitmap : ℕ} : ∀ {left j pos : ℕ} {s : σ},
    (tibxGroup m klen vlen hook bitmap left j pos s).Safe fun _ => True
  | 0, _, _, _ => trivial
  | left + 1, j, pos, s => by
    rw [tibxGroup]
    by_cases hout : m.len < pos + (klen + if bitmap.testBit j then vlen else 0)
    · rw [if_pos hout]
      trivial
    rw [if_neg hout]
    by_cases halive : bitmap.testBit j = true
    · rw [if_pos halive] at hout ⊢
      exact Safe.bind (h m pos s (by omega)) fun s _ => tibxGroup_safe h
    · rw [if_neg halive]
      exact tibxGroup_safe h

theorem tibxLeaf_safe (h : TibxInside klen vlen hook) {strict : Bool} {ncell : ℕ} :
    ∀ {fuel i pos : ℕ} {s : σ}, (tibxLeaf m klen vlen hook strict ncell fuel i pos s).Safe fun _ => True
  | 0, _, _, _ => trivial
  | fuel + 1, i, pos, s => by
    rw [tibxLeaf]
    by_cases hend : ncell ≤ i ∨ m.len < pos + 4
    · rw [if_pos hend]
      trivial
    rw [if_neg hend, field_of_le (by omega), done_bind]
    dsimp only
    by_cases hgroup : byteAt (fun k => m.byte (pos + k)) 0 = 0
        ∨ TIBX_CELL_GROUP_MAX < byteAt (fun k => m.byte (pos + k)) 0
    · cases strict <;> simp only [if_pos hgroup] <;> trivial
    · simp only [if_neg hgroup]
      refine Safe.bind (tibxGroup_safe h) fun t _ => ?_
      obtain ⟨more, pos', s'⟩ := t
      dsimp only
      split_ifs
      · exact tibxLeaf_safe h
      · trivial

theorem tibxDir_safe {α : Type} {walk : ℕ → α → Outcome GrubError α}
    (h : ∀ page s, (walk page s).Safe fun _ => True) : ∀ {left pos : ℕ} {s : α},
      (tibxDir m klen walk left pos s).Safe fun _ => True
  | 0, _, _ => trivial
  | left + 1, pos, s => by
    rw [tibxDir]
    by_cases hend : m.len < pos + klen + 8
    · rw [if_pos hend]
      trivial
    · rw [if_neg hend, field_of_le (by omega), done_bind]
      exact Safe.bind (h _ s) fun s _ => tibxDir_safe h

theorem tibxWalkPage_safe (h : TibxInside klen vlen hook) : ∀ {levels page : ℕ} {s : ℕ × σ},
    (tibxWalkPage klen vlen hook arc levels page s).Safe fun _ => True
  | 0, _, _ => trivial
  | levels + 1, page, s => by
    rw [tibxWalkPage]
    split_ifs
    · trivial
    · trivial
    cases arc.readPage s.1 page with
    | error e => trivial
    | ok raw =>
      dsimp only
      split_ifs
      · trivial
      · cases arc.cellStream (raw.from TIBX_ENVELOPE) with
        | error e => trivial
        | ok cells => exact tibxDir_safe fun page s => tibxWalkPage_safe h
      · cases arc.cellStream (raw.from TIBX_ENVELOPE) with
        | error e => trivial
        | ok cells => exact Safe.bind (tibxLeaf_safe h) fun _ _ => trivial

theorem tibxMemtreeCells_safe {sb : Mem} {enc : ℕ} (hlen : TIBX_LSB_MEM_PAYLOAD < sb.len) :
    (tibxMemtreeCells arc sb enc).Safe fun _ => True := by
  rw [tibxMemtreeCells]
  generalize TIBX_LSB_MEM_PAYLOAD = payload at *
  generalize TIBX_CELL_BUF_MAX = most
  by_cases hcrypt : 0x80 ≤ enc
  · rw [if_pos hcrypt]
    trivial
  rw [if_neg hcrypt]
  by_cases hraw : enc = 0
  · rw [if_pos hraw, field_of_le (by omega), done_bind]
    trivial
  rw [if_neg hraw]
  by_cases hlz4 : enc = 1
  · rw [if_pos hlz4]
    by_cases hshort : sb.len - payload < 8
    · rw [if_pos hshort]
      trivial
    rw [if_neg hshort, field_of_le (by omega), done_bind]
    by_cases hbad : sb.len - payload - 8 < lostBe32 (fun k => sb.byte (payload + k)) 0
        ∨ most < lostBe32 (fun k => sb.byte (payload + k)) 4
    · rw [if_pos hbad]
      trivial
    · rw [if_neg hbad, field_of_le (by omega), done_bind]
      split <;> trivial
  · rw [if_neg hlz4]
    trivial

theorem tibxWalkMemtree_safe (h : TibxInside klen vlen hook) {sb : Mem} {s : σ} :
    (tibxWalkMemtree klen vlen hook arc sb s).Safe fun _ => True := by
  have hpayload : TIBX_LSB_MEM_PAYLOAD = 0x178 := rfl
  have henc : TIBX_LSB_MEM_ENC = 0x158 := rfl
  have hcount : TIBX_LSB_MEM_COUNT = 0x15a := rfl
  rw [tibxWalkMemtree]
  split_ifs with hlen
  · trivial
  · rw [get_of_lt (by omega), done_bind, field_of_le (by omega), done_bind]
    dsimp only
    split_ifs
    · trivial
    · refine Safe.bind (tibxMemtreeCells_safe (Nat.lt_of_not_le hlen)) fun cells _ => ?_
      cases cells with
      | none => trivial
      | some cells => exact tibxLeaf_safe h

theorem tibxRuns_safe (h : TibxInside klen vlen hook) {sb : Mem} : ∀ {left i : ℕ} {s : ℕ × σ},
    (tibxRuns klen vlen hook arc sb left i s).Safe fun _ => True
  | 0, _, _ => trivial
  | left + 1, i, s => by
    have hsize : TIBX_LSB_CTREE_SIZE = 32 := rfl
    rw [tibxRuns]
    by_cases hend : sb.len < TIBX_LSB_CTREES + (i + 1) * TIBX_LSB_CTREE_SIZE
    · rw [if_pos hend]
      trivial
    · rw [Nat.add_mul, Nat.one_mul] at hend
      rw [if_neg (by rwa [Nat.add_mul, Nat.one_mul]), field_of_le (by omega), done_bind]
      dsimp only
      split_ifs
      · exact tibxRuns_safe h
      · exact Safe.bind (tibxWalkPage_safe h) fun s _ => tibxRuns_safe h

/-- With a hook that reads inside the cells, the walk stays inside the buffers, whatever the pages of
the archive point at. -/
theorem tibxWalkTree_safe {sb : Mem} {s : σ} (hdecl : TibxDeclares sb klen vlen)
    (h : (0 < klen ∧ klen ≤ TIBX_PAGE_BODY ∧ vlen ≤ TIBX_PAGE_BODY) → TibxInside klen vlen hook) :
    (tibxWalkTree hook arc sb s).Safe fun _ => True := by
  have hmin : TIBX_LSB_MIN_SIZE = 0x178 := rfl
  have hkey : TIBX_LSB_KEY_LEN = 0x10 := rfl
  obtain ⟨hk, hv⟩ := hdecl
  rw [tibxWalkTree]
  by_cases hlen : sb.len < TIBX_LSB_MIN_SIZE
  · rw [if_pos hlen]
    trivial
  rw [if_neg hlen, field_of_le (by omega), done_bind]
  have hk' : lostBe32 (fun k => sb.byte (TIBX_LSB_KEY_LEN + k)) 0 = klen := hk
  have hv' : lostBe32 (fun k => sb.byte (TIBX_LSB_KEY_LEN + k)) 4 = vlen := hv
  dsimp only
  rw [hk', hv']
  split_ifs with hbad
  · trivial
  · rw [get_of_lt (by omega), done_bind]
    have hinside := h (by omega)
    exact Safe.bind (tibxRuns_safe hinside) fun s _ => tibxWalkMemtree_safe hinside

theorem tibxSegmentHook_inside (h : 8 ≤ vlen) : TibxInside klen vlen tibxSegmentHook := by
  intro m pos s hend
  rw [tibxSegmentHook]
  split_ifs
  · trivial
  · rw [field_of_le (by omega), done_bind, field_of_le (by omega), done_bind]
    trivial

theorem tibxMeasureHook_inside (hv : 10 ≤ vlen) (hk : 19 ≤ klen + vlen) :
    TibxInside klen vlen tibxMeasureHook := by
  intro m pos s hend
  have hhead : ∀ len v, (tibxNoteHead m (pos + klen) len v).Safe fun _ => True := fun len v => by
    rw [tibxNoteHead, field_of_le (by omega), done_bind]
    trivial
  rw [tibxMeasureHook, field_of_le (by omega), done_bind]
  dsimp only
  split
  · split_ifs
    · exact Safe.bind (hhead _ _) fun _ _ => trivial
    · trivial
  · split_ifs
    · trivial
    · exact Safe.bind (hhead _ _) fun _ _ => trivial
    · trivial

theorem tibxExtentHook_inside (hv : 10 ≤ vlen) (hk : 31 ≤ klen + vlen) :
    TibxInside klen vlen tibxExtentHook := by
  have hid : TIBX_DMAP_KEY_ID = 23 := rfl
  intro m pos s hend
  rw [tibxExtentHook, field_of_le (by omega), done_bind]
  split
  · trivial
  · split_ifs
    · trivial
    · rw [field_of_le (by omega), done_bind, field_of_le (by omega), done_bind]
      exact safe_ofExcept fun _ _ => trivial

/-! ### Archives that are read outside -/

variable (klen vlen) in
/-- A superblock with no runs, whose residual tree has one live cell of zeros. -/
def tibxOneCell : Mem where
  len := TIBX_LSB_MEM_PAYLOAD + (4 + klen + vlen)
  byte := fun i =>
    if i = 0x12 then UInt8.ofNat (klen / 2 ^ 8)
    else if i = 0x13 then UInt8.ofNat klen
    else if i = 0x16 then UInt8.ofNat (vlen / 2 ^ 8)
    else if i = 0x17 then UInt8.ofNat vlen
    else if i = 0x15b ∨ i = 0x178 ∨ i = 0x17b then 1
    else 0

/-- An archive without pages. -/
def tibxNoPages : TibxArchive where
  pages := 0
  readPage := fun _ _ => .error ⟨.badDevice, "tibx image truncated"⟩
  cellStream := fun _ => .error ⟨.badDevice, "bad tibx page sizes"⟩
  lz4 := fun _ _ _ => none

variable (klen vlen) in
/-- The cells of the residual tree. -/
def tibxOneCellBuf : Mem := ⟨4 + klen + vlen, fun k => (tibxOneCell klen vlen).byte (0x178 + k)⟩

theorem tibxOneCellBuf_zero (i : ℕ) : (fun k => (tibxOneCellBuf klen vlen).byte (4 + i + k)) = fun _ => 0 := by
  funext k
  have h : ∀ n < 0x17c, 0x178 + (4 + i + k) ≠ n := fun n hn => by omega
  simp only [tibxOneCellBuf, tibxOneCell]
  rw [if_neg (h _ (by decide)), if_neg (h _ (by decide)), if_neg (h _ (by decide)),
    if_neg (h _ (by decide)), if_neg (by omega)]

theorem tibxOneCell_declares (hk : klen < 2 ^ 16) (hv : vlen < 2 ^ 16) :
    TibxDeclares (tibxOneCell klen vlen) klen vlen := by
  have hlow : ∀ n : ℕ, (UInt8.ofNat n).toNat = n % 256 := fun n => UInt8.toNat_ofNat'
  constructor
  · show 2 ^ 16 * (2 ^ 8 * 0 + 0) + (2 ^ 8 * (UInt8.ofNat (klen / 2 ^ 8)).toNat
      + (UInt8.ofNat klen).toNat) = klen
    rw [hlow, hlow]
    omega
  · show 2 ^ 16 * (2 ^ 8 * 0 + 0) + (2 ^ 8 * (UInt8.ofNat (vlen / 2 ^ 8)).toNat
      + (UInt8.ofNat vlen).toNat) = vlen
    rw [hlow, hlow]
    omega

theorem tibxOneCell_fault {s : σ} (hk : 0 < klen ∧ klen ≤ TIBX_PAGE_BODY) (hv : vlen ≤ TIBX_PAGE_BODY)
    (h : hook (tibxOneCellBuf klen vlen) 4 (4 + klen) s = fault) :
    tibxWalkTree hook tibxNoPages (tibxOneCell klen vlen) s = fault := by
  have hbody : TIBX_PAGE_BODY = 4088 := rfl
  have hlen : (tibxOneCell klen vlen).len = 0x178 + (4 + klen + vlen) := rfl
  have hmin : TIBX_LSB_MIN_SIZE = 0x178 := rfl
  have hpayload : TIBX_LSB_MEM_PAYLOAD = 0x178 := rfl
  have hkey : TIBX_LSB_KEY_LEN = 0x10 := rfl
  have henc : TIBX_LSB_MEM_ENC = 0x158 := rfl
  have hcount : TIBX_LSB_MEM_COUNT = 0x15a := rfl
  obtain ⟨hk', hv'⟩ := @tibxOneCell_declares klen vlen (by omega) (by omega)
  have hk' : lostBe32 (fun k => (tibxOneCell klen vlen).byte (TIBX_LSB_KEY_LEN + k)) 0 = klen := hk'
  have hv' : lostBe32 (fun k => (tibxOneCell klen vlen).byte (TIBX_LSB_KEY_LEN + k)) 4 = vlen := hv'
  rw [tibxWalkTree, if_neg (by omega), field_of_le (by omega), done_bind]
  dsimp only
  rw [hk', hv', if_neg (by omega), get_of_lt (by omega), done_bind]
  -- the slots of the runs are zeros
  have hruns : tibxRuns klen vlen hook tibxNoPages (tibxOneCell klen vlen) 2 0 (TIBX_LSM_PAGES_MAX, s)
      = done (TIBX_LSM_PAGES_MAX, s) := by
    rw [tibxRuns, if_neg (by rw [hlen]; simp only [TIBX_LSB_CTREES, TIBX_LSB_CTREE_SIZE]; omega),
      field_of_le (by rw [hlen]; simp only [TIBX_LSB_CTREES, TIBX_LSB_CTREE_SIZE]; omega), done_bind,
      if_pos (.inr ⟨rfl, rfl⟩), tibxRuns,
      if_neg (by rw [hlen]; simp only [TIBX_LSB_CTREES, TIBX_LSB_CTREE_SIZE]; omega),
      field_of_le (by rw [hlen]; simp only [TIBX_LSB_CTREES, TIBX_LSB_CTREE_SIZE]; omega), done_bind,
      if_pos (.inr ⟨rfl, rfl⟩), tibxRuns]
  have hextra : ((tibxOneCell klen vlen).byte 5).toNat + 2 = 2 := rfl
  rw [hextra, hruns, done_bind, tibxWalkMemtree, if_neg (by omega), get_of_lt (by omega), done_bind,
    field_of_le (by omega), done_bind]
  have hone : lostBe16 (fun k => (tibxOneCell klen vlen).byte (TIBX_LSB_MEM_COUNT + k)) 0 = 1 := rfl
  dsimp only
  rw [hone, if_neg (by omega)]
  have hcells : tibxMemtreeCells tibxNoPages (tibxOneCell klen vlen)
      ((tibxOneCell klen vlen).byte TIBX_LSB_MEM_ENC).toNat = done (some (tibxOneCellBuf klen vlen)) := by
    have hraw : ((tibxOneCell klen vlen).byte TIBX_LSB_MEM_ENC).toNat = 0 := rfl
    rw [hraw, tibxMemtreeCells, if_neg (by decide), if_pos rfl, field_of_le (by omega), done_bind, hlen,
      hpayload, Nat.add_sub_cancel_left]
    rfl
  rw [hcells, done_bind]
  simp only
  have hbuf : (tibxOneCellBuf klen vlen).len = 4 + klen + vlen := rfl
  rw [tibxLeaf, if_neg (by omega), field_of_le (by omega), done_bind]
  have hgroup : byteAt (fun k => (tibxOneCellBuf klen vlen).byte (0 + k)) 0 = 1 := rfl
  have hbits : byteAt (fun k => (tibxOneCellBuf klen vlen).byte (0 + k)) 3
      + 2 ^ 8 * byteAt (fun k => (tibxOneCellBuf klen vlen).byte (0 + k)) 2
      + 2 ^ 16 * byteAt (fun k => (tibxOneCellBuf klen vlen).byte (0 + k)) 1 = 1 := rfl
  dsimp only
  rw [hgroup, hbits, if_neg (by decide)]
  have hcell : tibxGroup (tibxOneCellBuf klen vlen) klen vlen hook 1 (min 1 (1 - 0)) 0 (0 + 4) s
      = fault := by
    have halive : Nat.testBit 1 0 = true := by decide
    rw [show min 1 (1 - 0) = 0 + 1 from rfl, tibxGroup, halive, if_pos rfl, if_neg (by omega), if_pos rfl,
      Nat.zero_add, h, fault_bind]
  rw [hcell, fault_bind]

theorem tibxSegmentHook_fault (h : vlen < 8) :
    tibxSegmentHook (tibxOneCellBuf klen vlen) 4 (4 + klen) [] = fault := by
  have hbuf : (tibxOneCellBuf klen vlen).len = 4 + klen + vlen := rfl
  rw [tibxSegmentHook, if_neg (by decide)]
  by_cases hkey : 8 ≤ klen + vlen
  · rw [field_of_le (by omega), done_bind, field_of_lt (by omega), fault_bind]
  · rw [field_of_lt (by omega), fault_bind]

theorem tibxMeasureHook_fault (h : vlen < 10 ∨ klen + vlen < 19) :
    tibxMeasureHook (tibxOneCellBuf klen vlen) 4 (4 + klen) [] = fault := by
  have hbuf : (tibxOneCellBuf klen vlen).len = 4 + klen + vlen := rfl
  rw [tibxMeasureHook]
  by_cases hkey : 19 ≤ klen + vlen
  · rw [field_of_le (by omega), done_bind, tibxOneCellBuf_zero 0]
    show (tibxNoteHead (tibxOneCellBuf klen vlen) (4 + klen) 0 ⟨0, 0, 0, 0, 0⟩ >>= _) = fault
    rw [tibxNoteHead, field_of_lt (by omega), fault_bind, fault_bind]
  · rw [field_of_lt (by omega), fault_bind]

theorem tibxExtentHook_fault (h : vlen < 10 ∨ klen + vlen < 31) :
    tibxExtentHook (tibxOneCellBuf klen vlen) 4 (4 + klen) ⟨[⟨0, 0⟩], 0, []⟩ = fault := by
  have hbuf : (tibxOneCellBuf klen vlen).len = 4 + klen + vlen := rfl
  have hid : TIBX_DMAP_KEY_ID = 23 := rfl
  rw [tibxExtentHook]
  by_cases hvol : 8 ≤ klen + vlen
  · rw [field_of_le (by omega), done_bind, tibxOneCellBuf_zero 0]
    have hplace : tibxFindPlace ⟨[⟨0, 0⟩], 0, []⟩ (lostBe64 (fun _ => 0) 0) = some 0 := rfl
    rw [hplace]
    simp only
    rw [if_neg (by decide)]
    by_cases hkey : 31 ≤ klen + vlen
    · rw [field_of_le (by omega), done_bind, field_of_lt (by omega), fault_bind]
    · rw [field_of_lt (by omega), fault_bind]
  · rw [field_of_lt (by omega), fault_bind]

/-! ### The lengths -/

/-- `tibx_walk_tree` takes the lengths. -/
def TibxLengthsTaken (klen vlen : ℕ) : Prop := 0 < klen ∧ klen ≤ TIBX_PAGE_BODY ∧ vlen ≤ TIBX_PAGE_BODY

/-- If a hook reads inside the cells for these lengths, and leaves the cell of an archive with one cell
for others, the archives are read inside their buffers for these lengths only. -/
theorem tibxSafe_iff {p : Prop} (hin : p → TibxInside klen vlen hook) {s : σ}
    (hout : ¬ p → hook (tibxOneCellBuf klen vlen) 4 (4 + klen) s = fault) :
    TibxSafe klen vlen hook ↔ (TibxLengthsTaken klen vlen → p) := by
  have hbody : TIBX_PAGE_BODY = 4088 := rfl
  constructor
  · intro h htaken
    by_contra hnot
    obtain ⟨hpos, hk, hv⟩ := htaken
    exact h tibxNoPages (tibxOneCell klen vlen) s (tibxOneCell_declares (by omega) (by omega))
      (tibxOneCell_fault ⟨hpos, hk⟩ hv (hout hnot))
  · intro h arc sb s hdecl
    exact (tibxWalkTree_safe hdecl fun htaken => hin (h htaken)).ne_fault

/-- The walk of the segment map, and the two walks of the data map, stay inside the buffers of every
archive exactly for the lengths that the walk does not take and for those that have room for what the
hooks read. -/
theorem tibx_walk_iff (klen vlen : ℕ) :
    (TibxSafe klen vlen tibxSegmentHook ↔ (TibxLengthsTaken klen vlen → 8 ≤ vlen))
      ∧ (TibxSafe klen vlen tibxMeasureHook
        ↔ (TibxLengthsTaken klen vlen → 10 ≤ vlen ∧ 19 ≤ klen + vlen))
      ∧ (TibxSafe klen vlen tibxExtentHook
        ↔ (TibxLengthsTaken klen vlen → 10 ≤ vlen ∧ 31 ≤ klen + vlen)) :=
  ⟨tibxSafe_iff tibxSegmentHook_inside fun h => tibxSegmentHook_fault (by omega),
    tibxSafe_iff (fun h => tibxMeasureHook_inside h.1 h.2) fun h => tibxMeasureHook_fault (by omega),
    tibxSafe_iff (fun h => tibxExtentHook_inside h.1 h.2) fun h => tibxExtentHook_fault (by omega)⟩

/-- Values of four bytes are taken, and `tibx_add_segment` reads the four behind them. -/
theorem tibx_short_value :
    TibxDeclares (tibxOneCell 8 4) 8 4
      ∧ tibxWalkTree tibxSegmentHook tibxNoPages (tibxOneCell 8 4) [] = fault :=
  ⟨tibxOneCell_declares (by decide) (by decide),
    tibxOneCell_fault (by decide) (by decide) (tibxSegmentHook_fault (by decide))⟩

end FsRover
