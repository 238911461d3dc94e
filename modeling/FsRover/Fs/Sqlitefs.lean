import FsRover.Bytes
import FsRover.Grub
import FsRover.Lib.Guards

/-!
# The b-trees of SQLite

`sqlitefs.c` walks the b-trees of a database. A page is a leaf or has children; a cell holds a
payload, whose bytes that do not fit the page go on in a chain of overflow pages. A payload is a
record of columns.

The room for a payload is taken to be there. What a hook does between two cells depends on the cells
it was given.

## Main definitions

* `FsRover.SqlitefsData`, `FsRover.sqlitefsMount` : the database.
* `FsRover.sqlitefsReadVarint`, `FsRover.sqlitefsPayload` : cells.
* `FsRover.sqlitefsWalkPage`, `FsRover.sqlitefsWalkBtree` : the walk.
* `FsRover.sqlitefsRecordValues` : records.
-/

namespace FsRover

open Guards

def SQLITEFS_BTREE_DEPTH_MAX : ℕ := 64
def SQLITEFS_PAGE_INDEX_INTERIOR : ℕ := 0x02
def SQLITEFS_PAGE_TABLE_INTERIOR : ℕ := 0x05
def SQLITEFS_PAGE_INDEX_LEAF : ℕ := 0x0a
def SQLITEFS_PAGE_TABLE_LEAF : ℕ := 0x0d

/-- `sqlitefs_bad`. -/
def sqlitefsBad (message : String) : GrubError := ⟨.badFs, message⟩

/-! ### The database -/

/-- The disk of a database; a read at that offset and of that length may fail. -/
structure SqlitefsDisk where
  byte : Buf
  fault : ℕ → ℕ → Option GrubError
  sectors : Option ℕ

/-- `grub_disk_read` from sector 0 on. -/
def SqlitefsDisk.read (disk : SqlitefsDisk) (off len : ℕ) : Except GrubError Buf :=
  match disk.fault off len with
  | some e => .error e
  | none => .ok (disk.byte.from off)

/-- The part of `struct sqlitefs_data` that a walk uses. -/
structure SqlitefsData where
  disk : SqlitefsDisk
  pageSize : ℕ
  usableSize : ℕ
  pages : ℕ
  pages_lt : pages < 2 ^ 32
  usable_le : 480 ≤ usableSize
  usable_le_page : usableSize ≤ pageSize

/-- `"SQLite format 3"` with its end. -/
def sqlitefsMagic : List UInt8 :=
  [0x53, 0x51, 0x4c, 0x69, 0x74, 0x65, 0x20, 0x66, 0x6f, 0x72, 0x6d, 0x61, 0x74, 0x20, 0x33, 0]

/-- `sqlitefs_mount`. -/
def sqlitefsMount (disk : SqlitefsDisk) : Except GrubError SqlitefsData := do
  let bad := sqlitefsBad "not a valid SQLite 3 database"
  let header ← disk.read 0 100
  refuseIf (bytesAt header 0 sqlitefsMagic = false) bad
  let pageSize := if lostBe16 header 16 = 1 then 65536 else lostBe16 header 16
  refuseIf (pageSize < 512 ∨ 65536 < pageSize ∨ pageSize &&& (pageSize - 1) ≠ 0) bad
  refuseIf ((byteAt header 18 ≠ 1 ∧ byteAt header 18 ≠ 2)
    ∨ (byteAt header 19 ≠ 1 ∧ byteAt header 19 ≠ 2) ∨ byteAt header 21 ≠ 64
    ∨ byteAt header 22 ≠ 32 ∨ byteAt header 23 ≠ 32) bad
  if husable : 480 ≤ pageSize - byteAt header 20 then do
    refuseIf (lostBe32 header 44 < 1 ∨ 4 < lostBe32 header 44 ∨ lostBe32 header 56 < 1
      ∨ 3 < lostBe32 header 56) bad
    let sectors ← require disk.sectors bad
    refuseIf (2 ^ 55 - 1 < sectors) bad
    let actual := sectors * 512 / pageSize
    if hactual : actual ≠ 0 ∧ actual ≤ 0xfffffffe then do
      let trusted := lostBe32 header 28 ≠ 0 ∧ lostBe32 header 24 = lostBe32 header 92
      refuseIf (trusted ∧ actual < lostBe32 header 28) bad
      .ok {
        disk
        pageSize
        usableSize := pageSize - byteAt header 20
        pages := if trusted then lostBe32 header 28 else actual
        pages_lt := by
          split
          · exact lostBe32_lt header 28
          · exact Nat.lt_of_le_of_lt hactual.2 (by decide)
        usable_le := husable
        usable_le_page := Nat.sub_le _ _ }
    else .error bad
  else .error bad

/-- `sqlitefs_read_page`. -/
def sqlitefsReadPage (data : SqlitefsData) (page : ℕ) : Except GrubError Buf :=
  if page = 0 ∨ data.pages < page then .error (sqlitefsBad "SQLite b-tree page is out of range")
  else data.disk.read ((page - 1) * data.pageSize) data.pageSize

/-! ### Cells -/

/-- The loop of `sqlitefs_read_varint`, and the ninth byte. -/
def sqlitefsReadVarintFrom (p : Buf) (available : ℕ) : ℕ → ℕ → ℕ → Option (ℕ × ℕ)
  | 0, _, v => if 9 ≤ available then some (v * 2 ^ 8 + byteAt p 8, 9) else none
  | n + 1, i, v =>
    if i < available then
      let v := v * 2 ^ 7 + byteAt p i % 2 ^ 7
      if byteAt p i < 2 ^ 7 then some (v, i + 1)
      else sqlitefsReadVarintFrom p available n (i + 1) v
    else none

/-- `sqlitefs_read_varint`: the value and the bytes used. -/
def sqlitefsReadVarint (p : Buf) (available : ℕ) : Option (ℕ × ℕ) :=
  sqlitefsReadVarintFrom p available 8 0 0

/-- `sqlitefs_local_payload`. -/
def sqlitefsLocalPayload (data : SqlitefsData) (pageType payload : ℕ) : ℕ :=
  let maximum := if pageType = SQLITEFS_PAGE_TABLE_LEAF then data.usableSize - 35
    else (data.usableSize - 12) * 64 / 255 - 23
  let minimum := (data.usableSize - 12) * 32 / 255 - 23
  if payload ≤ maximum then payload
  else
    let candidate := minimum + (payload - minimum) % (data.usableSize - 4)
    if maximum < candidate then minimum else candidate

/-- The loop of `sqlitefs_payload` over the overflow pages, of which it follows at most that many. -/
def sqlitefsOverflow (data : SqlitefsData) : ℕ → ℕ → ℕ → Except GrubError (List UInt8)
  | 0, overflow, left =>
    if left = 0 ∧ overflow = 0 then .ok []
    else .error (sqlitefsBad "invalid SQLite overflow chain")
  | links + 1, overflow, left =>
    if left = 0 then
      if overflow = 0 then .ok [] else .error (sqlitefsBad "invalid SQLite overflow chain")
    else if overflow = 0 ∨ data.pages < overflow then
      .error (sqlitefsBad "invalid SQLite overflow chain")
    else do
      let chunk := min left (data.usableSize - 4)
      let next ← data.disk.read ((overflow - 1) * data.pageSize) 4
      let bytes ← data.disk.read ((overflow - 1) * data.pageSize + 4) chunk
      let rest ← sqlitefsOverflow data links (lostBe32 next 0) (left - chunk)
      .ok ((List.range chunk).map bytes ++ rest)

/-- `sqlitefs_payload`. -/
def sqlitefsPayload (data : SqlitefsData) (page : Buf) (cellOffset pageType payloadSize
    payloadOffset : ℕ) : Except GrubError (List UInt8) := do
  let stored := sqlitefsLocalPayload data pageType payloadSize
  refuseIf (data.usableSize < cellOffset ∨ data.usableSize - cellOffset < payloadOffset
      ∨ data.usableSize - cellOffset - payloadOffset < stored)
    (sqlitefsBad "invalid SQLite cell payload")
  let next := cellOffset + payloadOffset + stored
  refuseIf (stored ≠ payloadSize ∧ (data.usableSize < next ∨ data.usableSize - next < 4))
    (sqlitefsBad "invalid SQLite cell payload")
  let rest ← sqlitefsOverflow data data.pages
    (if stored ≠ payloadSize then lostBe32 page next else 0) (payloadSize - stored)
  .ok ((List.range stored).map (page.from (cellOffset + payloadOffset)) ++ rest)

/-- `struct sqlitefs_cell`. -/
structure SqlitefsCell where
  pageType : ℕ
  page : ℕ
  cell : ℕ
  rowid : ℤ
  payload : List UInt8
  deriving DecidableEq

/-- `struct sqlitefs_walk`, with the cells that were given to the hook. -/
structure SqlitefsWalk where
  delivered : List SqlitefsCell
  pagesSeen : ℕ
  family : ℕ
  stopped : Bool

/-- A 64-bit number as a signed one. -/
def sqlitefsSigned (n : ℕ) : ℤ := if n < 2 ^ 63 then n else (n : ℤ) - (2 ^ 64 : ℕ)

/-- The rowid of a cell, at that offset in it, and the bytes used; only a table leaf has one. -/
def sqlitefsRowidAt (data : SqlitefsData) (page : Buf) (pageType cellOffset offset : ℕ) :
    Except GrubError (ℕ × ℕ) :=
  if pageType = SQLITEFS_PAGE_TABLE_LEAF then
    require (sqlitefsReadVarint (page.from (cellOffset + offset))
      (data.usableSize - cellOffset - offset)) (sqlitefsBad "invalid SQLite b-tree cell")
  else .ok (0, 0)

/-- The part of `sqlitefs_visit_cell` that reads the cell. -/
def sqlitefsCellAt (data : SqlitefsData) (page : Buf) (pageNumber pageType cellNumber
    cellOffset : ℕ) : Except GrubError SqlitefsCell := do
  let bad := sqlitefsBad "invalid SQLite b-tree cell"
  let offset := if pageType = SQLITEFS_PAGE_INDEX_INTERIOR then 4 else 0
  refuseIf (data.usableSize < cellOffset ∨ data.usableSize - cellOffset < offset) bad
  let size ← require (sqlitefsReadVarint (page.from (cellOffset + offset))
    (data.usableSize - cellOffset - offset)) bad
  let rowid ← sqlitefsRowidAt data page pageType cellOffset (offset + size.2)
  let payload ← sqlitefsPayload data page cellOffset pageType size.1 (offset + size.2 + rowid.2)
  .ok {
    pageType
    page := pageNumber
    cell := cellNumber
    rowid := sqlitefsSigned rowid.1
    payload }

section Walk

-- whether the hook stops the walk at a cell, behind the cells it was given before
variable (data : SqlitefsData) (hook : List SqlitefsCell → SqlitefsCell → Bool)

/-- `sqlitefs_visit_cell`. -/
def sqlitefsVisitCell (w : SqlitefsWalk) (page : Buf) (pageNumber pageType cellNumber
    cellOffset : ℕ) : Except GrubError SqlitefsWalk := do
  let cell ← sqlitefsCellAt data page pageNumber pageType cellNumber cellOffset
  .ok { w with delivered := w.delivered ++ [cell], stopped := hook w.delivered cell }

/-- What `sqlitefs_walk_page` finds in the header of a page. -/
structure SqlitefsHeader where
  start : ℕ
  pageType : ℕ
  cells : ℕ

/-- Whether pages of that type have children. -/
def sqlitefsInterior (pageType : ℕ) : Bool :=
  pageType = SQLITEFS_PAGE_INDEX_INTERIOR || pageType = SQLITEFS_PAGE_TABLE_INTERIOR

/-- The family of a page type: 1 for tables, 2 for indices. -/
def sqlitefsFamily (pageType : ℕ) : ℕ :=
  if pageType = SQLITEFS_PAGE_TABLE_INTERIOR ∨ pageType = SQLITEFS_PAGE_TABLE_LEAF then 1 else 2

/-- The length of the page header. -/
def sqlitefsHeaderSize (pageType : ℕ) : ℕ := if sqlitefsInterior pageType then 12 else 8

/-- The first part of `sqlitefs_walk_page`: the page and its header, in a walk through the family. -/
def sqlitefsOpenPage (family pageNumber : ℕ) : Except GrubError (Buf × SqlitefsHeader) := do
  let bad := sqlitefsBad "invalid SQLite b-tree page"
  let start := if pageNumber = 1 then 100 else 0
  let page ← sqlitefsReadPage data pageNumber
  let pageType := byteAt page start
  refuseIf (sqlitefsInterior pageType = false ∧ pageType ≠ SQLITEFS_PAGE_INDEX_LEAF
    ∧ pageType ≠ SQLITEFS_PAGE_TABLE_LEAF) bad
  refuseIf (family ≠ 0 ∧ family ≠ sqlitefsFamily pageType) bad
  refuseIf (data.usableSize < start + sqlitefsHeaderSize pageType) bad
  let cells := lostBe16 page (start + 3)
  refuseIf ((data.usableSize - start - sqlitefsHeaderSize pageType) / 2 < cells) bad
  .ok (page, { start, pageType, cells })

/-- The offset of cell `i`, if it lies in the page behind the cell pointers. -/
def sqlitefsCellOffset (page : Buf) (h : SqlitefsHeader) (i : ℕ) : Except GrubError ℕ := do
  let cellOffset := lostBe16 page (h.start + sqlitefsHeaderSize h.pageType + 2 * i)
  refuseIf (cellOffset < h.start + sqlitefsHeaderSize h.pageType + 2 * h.cells
    ∨ data.usableSize ≤ cellOffset) (sqlitefsBad "invalid SQLite b-tree page")
  .ok cellOffset

/-- The child left of a cell, which only an interior page has. -/
def sqlitefsWalkLeft (walkChild : SqlitefsWalk → ℕ → Except GrubError SqlitefsWalk)
    (page : Buf) (h : SqlitefsHeader) (cellOffset : ℕ) (w : SqlitefsWalk) :
    Except GrubError SqlitefsWalk :=
  if sqlitefsInterior h.pageType then do
    refuseIf (data.usableSize - cellOffset < 4) (sqlitefsBad "invalid SQLite b-tree page")
    walkChild w (lostBe32 page cellOffset)
  else .ok w

/-- One round of the loop of `sqlitefs_walk_page`. -/
def sqlitefsWalkCell (walkChild : SqlitefsWalk → ℕ → Except GrubError SqlitefsWalk)
    (page : Buf) (pageNumber : ℕ) (h : SqlitefsHeader) (i : ℕ) (w : SqlitefsWalk) :
    Except GrubError SqlitefsWalk := do
  let cellOffset ← sqlitefsCellOffset data page h i
  let w ← sqlitefsWalkLeft data walkChild page h cellOffset w
  if w.stopped = false ∧ h.pageType ≠ SQLITEFS_PAGE_TABLE_INTERIOR then
    sqlitefsVisitCell data hook w page pageNumber h.pageType i cellOffset
  else .ok w

/-- The loop of `sqlitefs_walk_page` over the `n` cells from `i` on. -/
def sqlitefsWalkCells (walkChild : SqlitefsWalk → ℕ → Except GrubError SqlitefsWalk)
    (page : Buf) (pageNumber : ℕ) (h : SqlitefsHeader) :
    ℕ → ℕ → SqlitefsWalk → Except GrubError SqlitefsWalk
  | 0, _, w => .ok w
  | n + 1, i, w =>
    if w.stopped then .ok w
    else do
      let w ← sqlitefsWalkCell data hook walkChild page pageNumber h i w
      sqlitefsWalkCells walkChild page pageNumber h n (i + 1) w

/-- `sqlitefs_walk_page`, with so many levels of pages left. -/
def sqlitefsWalkPage : ℕ → SqlitefsWalk → ℕ → Except GrubError SqlitefsWalk
  | 0, w, _ => if w.stopped then .ok w else .error (sqlitefsBad "invalid SQLite b-tree page")
  | levels + 1, w, pageNumber =>
    if w.stopped then .ok w
    else do
      refuseIf (data.pages < w.pagesSeen + 1) (sqlitefsBad "invalid SQLite b-tree page")
      let (page, h) ← sqlitefsOpenPage data w.family pageNumber
      let w ← sqlitefsWalkCells data hook (sqlitefsWalkPage levels) page pageNumber h h.cells 0
        { w with pagesSeen := w.pagesSeen + 1, family := sqlitefsFamily h.pageType }
      if sqlitefsInterior h.pageType = true ∧ w.stopped = false then
        sqlitefsWalkPage levels w (lostBe32 page (h.start + 8))
      else .ok w

/-- `sqlitefs_walk_btree`: the walk behind the last page. -/
def sqlitefsWalkBtree (root : ℕ) : Except GrubError SqlitefsWalk :=
  sqlitefsWalkPage data hook SQLITEFS_BTREE_DEPTH_MAX
    { delivered := [], pagesSeen := 0, family := 0, stopped := false } root

end Walk

/-! ### Records -/

/-- `sqlitefs_serial_size`. -/
def sqlitefsSerialSize (serial : ℕ) : Option ℕ :=
  match serial with
  | 0 | 8 | 9 => some 0
  | 1 => some 1
  | 2 => some 2
  | 3 => some 3
  | 4 => some 4
  | 5 => some 6
  | 6 | 7 => some 8
  | 10 | 11 => none
  | serial => some ((serial - if serial % 2 = 1 then 13 else 12) / 2)

/-- `struct sqlitefs_value`; the data is `size` bytes from `off` on. -/
structure SqlitefsValue where
  serial : ℕ
  off : ℕ
  size : ℕ
  deriving DecidableEq

/-- The loop of `sqlitefs_record_values`; each round reads a byte of the header at least. -/
def sqlitefsValuesFrom (record : Buf) (size headerSize maximum : ℕ) :
    ℕ → ℕ → ℕ → ℕ → Option (List SqlitefsValue)
  | 0, headerOffset, bodyOffset, _ =>
    if headerSize ≤ headerOffset ∧ bodyOffset = size then some [] else none
  | fuel + 1, headerOffset, bodyOffset, n =>
    if headerOffset < headerSize then
      if n = maximum then none
      else
        match sqlitefsReadVarint (record.from headerOffset) (headerSize - headerOffset) with
        | none => none
        | some (serial, used) =>
          match sqlitefsSerialSize serial with
          | none => none
          | some valueSize =>
            if size - bodyOffset < valueSize then none
            else
              (sqlitefsValuesFrom record size headerSize maximum fuel (headerOffset + used)
                (bodyOffset + valueSize) (n + 1)).map
                  (⟨serial, bodyOffset, valueSize⟩ :: ·)
    else if bodyOffset = size then some [] else none

/-- `sqlitefs_record_values` of a record of that size. -/
def sqlitefsRecordValues (record : Buf) (size maximum : ℕ) :
    Except GrubError (List SqlitefsValue) :=
  let bad := sqlitefsBad "invalid SQLite record"
  match sqlitefsReadVarint record size with
  | none => .error bad
  | some (headerSize, headerUsed) =>
    if size < headerSize ∨ headerSize < headerUsed then .error bad
    else
      match sqlitefsValuesFrom record size headerSize maximum headerSize headerUsed headerSize 0 with
      | none => .error bad
      | some values => .ok values

end FsRover
