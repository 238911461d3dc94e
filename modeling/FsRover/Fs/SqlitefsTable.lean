import FsRover.Fs.SqlitefsWalk
import Mathlib.Tactic.IntervalCases

/-!
# Tables and records of SQLite

A well-formed table b-tree has all its leaves at one depth and keys that separate its rows. The walk
delivers its rows by ascending rowid; its pages are too few for it to be too deep. The walk of an index
delivers the cells of the interior pages too, each between the children beside it. A record splits
into columns that fill it.

## Main definitions

* `FsRover.SqliteTable` : a table b-tree with its keys.
* `FsRover.SqliteColumns`, `FsRover.SqliteRecord` : the columns of a record.
-/

namespace FsRover

open Guards

/-! ### Tables -/

theorem SqliteSegments.of_mem {data : SqlitefsData} {Tree : ℕ → List SqlitefsCell → List ℕ → Prop}
    {page : Buf} {number i : ℕ} {h : SqlitefsHeader} {segs : List SqliteSegment}
    {seg : SqliteSegment} (hsegs : SqliteSegments data Tree page number h i segs)
    (hseg : seg ∈ segs) : ∃ j, SqliteSegmentAt data Tree page number h j seg := by
  induction segs generalizing i with
  | nil => cases hseg
  | cons seg' segs ih =>
    rcases List.mem_cons.mp hseg with rfl | hseg
    · exact ⟨i, hsegs.1⟩
    · exact ih hsegs.2 hseg

theorem SqliteBelow.mono {Tree Tree' : ℕ → List SqlitefsCell → List ℕ → Prop} {h : SqlitefsHeader}
    {number : ℕ} {cells : List SqlitefsCell} {pages : List ℕ}
    (hmono : ∀ number cells pages, Tree number cells pages → Tree' number cells pages)
    (hbelow : SqliteBelow Tree h number cells pages) : SqliteBelow Tree' h number cells pages := by
  rw [SqliteBelow] at hbelow ⊢
  split_ifs at hbelow ⊢
  · exact hmono _ _ _ hbelow
  · exact hbelow

theorem SqliteSegments.mono {data : SqlitefsData}
    {Tree Tree' : ℕ → List SqlitefsCell → List ℕ → Prop} {page : Buf} {number i : ℕ}
    {h : SqlitefsHeader} {segs : List SqliteSegment}
    (hmono : ∀ number cells pages, Tree number cells pages → Tree' number cells pages)
    (hsegs : SqliteSegments data Tree page number h i segs) :
    SqliteSegments data Tree' page number h i segs := by
  induction segs generalizing i with
  | nil => trivial
  | cons seg segs ih => exact ⟨⟨hsegs.1.room, hsegs.1.below.mono hmono, hsegs.1.own⟩, ih hsegs.2⟩

theorem SqliteNodeAt.mono {data : SqlitefsData}
    {Tree Tree' : ℕ → List SqlitefsCell → List ℕ → Prop} {number : ℕ} {page : Buf}
    {h : SqlitefsHeader} {segs : List SqliteSegment} {last cells : List SqlitefsCell}
    {lastPages pages : List ℕ}
    (hmono : ∀ number cells pages, Tree number cells pages → Tree' number cells pages)
    (hnode : SqliteNodeAt data Tree number page h segs last lastPages cells pages) :
    SqliteNodeAt data Tree' number page h segs last lastPages cells pages :=
  ⟨hnode.open_page, hnode.length_eq, hnode.segments.mono hmono, hnode.right.mono hmono, hnode.cells_eq,
    hnode.pages_eq⟩

theorem mem_segmentCells {segs : List SqliteSegment} {cell : SqlitefsCell} :
    cell ∈ segmentCells segs ↔ ∃ seg ∈ segs, cell ∈ seg.child ∨ cell ∈ seg.own := by
  rw [segmentCells, List.mem_flatMap]
  simp only [List.mem_append]

theorem SqliteTree.mem_pages {data : SqlitefsData} {family levels number q : ℕ}
    {cells : List SqlitefsCell} {pages : List ℕ}
    (htree : SqliteTree data family levels number cells pages) (hq : q ∈ pages) :
    q ≠ 0 ∧ q ≤ data.pages := by
  induction levels generalizing number cells pages with
  | zero => cases htree
  | succ levels ih =>
    obtain ⟨page, h, segs, last, lastPages, -, hnode⟩ := htree
    have hbelow : ∀ {number cells pages}, SqliteBelow (SqliteTree data family levels) h number cells
        pages → q ∈ pages → q ≠ 0 ∧ q ≤ data.pages := by
      intro number cells pages hbelow hq
      rw [SqliteBelow] at hbelow
      split_ifs at hbelow
      · exact ih hbelow hq
      · rw [hbelow.2] at hq
        cases hq
    rw [hnode.pages_eq, List.mem_cons, List.mem_append, segmentPages, List.mem_flatMap] at hq
    rcases hq with rfl | ⟨seg, hseg, hq⟩ | hq
    · exact hnode.open_page.in_range
    · obtain ⟨j, hat⟩ := hnode.segments.of_mem hseg
      exact hbelow hat.below hq
    · exact hbelow hnode.right hq

theorem SqliteTree.leaf_of_table {data : SqlitefsData} {levels number : ℕ}
    {cells : List SqlitefsCell} {pages : List ℕ} {cell : SqlitefsCell}
    (htree : SqliteTree data 1 levels number cells pages) (hcell : cell ∈ cells) :
    cell.pageType = SQLITEFS_PAGE_TABLE_LEAF := by
  induction levels generalizing number cells pages with
  | zero => cases htree
  | succ levels ih =>
    obtain ⟨page, h, segs, last, lastPages, hfamily, hnode⟩ := htree
    have hbelow : ∀ {number cells pages}, SqliteBelow (SqliteTree data 1 levels) h number cells
        pages → cell ∈ cells → cell.pageType = SQLITEFS_PAGE_TABLE_LEAF := by
      intro number cells pages hbelow hcell
      rw [SqliteBelow] at hbelow
      split_ifs at hbelow
      · exact ih hbelow hcell
      · rw [hbelow.1] at hcell
        cases hcell
    rw [hnode.cells_eq, List.mem_append, mem_segmentCells] at hcell
    rcases hcell with ⟨seg, hseg, hcell | hcell⟩ | hcell
    · obtain ⟨j, hat⟩ := hnode.segments.of_mem hseg
      exact hbelow hat.below hcell
    · obtain ⟨j, hat⟩ := hnode.segments.of_mem hseg
      have hown := hat.own
      rw [SqliteOwn] at hown
      split_ifs at hown with hinterior
      · rw [hown] at hcell
        cases hcell
      · obtain ⟨cell', hown, size, used, rowid, more, -, -, -, -, htype, -⟩ := hown
        rw [hown] at hcell
        rw [List.mem_singleton.mp hcell, htype]
        by_contra hleaf
        rw [sqlitefsFamily, if_neg (not_or.mpr ⟨hinterior, hleaf⟩)] at hfamily
        cases hfamily
    · exact hbelow hnode.right hcell

/-- The key of cell `i` of an interior table page, behind the child. -/
def SqliteKeyAt (data : SqlitefsData) (page : Buf) (h : SqlitefsHeader) (i : ℕ) (key : ℤ) : Prop :=
  ∃ v used, IsVarint (page.from (sqlitePointer page h i + 4)) v used
    ∧ sqlitePointer page h i + 4 + used ≤ data.usableSize ∧ key = sqlitefsSigned v

/-- The key of a cell is no less than the rowids to its left, and less than those to its right. -/
def SqliteSeparated (Key : ℕ → ℤ → Prop) (segs : List SqliteSegment) (last : List SqlitefsCell) :
    Prop :=
  ∀ i < segs.length, ∃ key, Key i key
    ∧ (∀ cell ∈ segmentCells (segs.take (i + 1)), cell.rowid ≤ key)
    ∧ ∀ cell ∈ segmentCells (segs.drop (i + 1)) ++ last, key < cell.rowid

/-- The cells come by ascending rowid. -/
def RowsAscend (cells : List SqlitefsCell) : Prop := cells.Pairwise fun c c' => c.rowid < c'.rowid

/-- A well-formed table b-tree: all its leaves are at that depth, an interior page has a cell, and
its keys separate the rows. -/
def SqliteTable (data : SqlitefsData) : ℕ → ℕ → List SqlitefsCell → List ℕ → Prop
  | 0, number, cells, pages => ∃ page h segs last lastPages,
    h.pageType = SQLITEFS_PAGE_TABLE_LEAF ∧ SqliteNodeAt data (fun _ _ _ => False) number page h segs
      last lastPages cells pages ∧ RowsAscend cells
  | depth + 1, number, cells, pages => ∃ page h segs last lastPages,
    h.pageType = SQLITEFS_PAGE_TABLE_INTERIOR ∧ SqliteNodeAt data (SqliteTable data depth) number page
      h segs last lastPages cells pages ∧ 0 < h.cells
      ∧ SqliteSeparated (SqliteKeyAt data page h) segs last

theorem SqliteTable.tree {data : SqlitefsData} {depth levels number : ℕ}
    {cells : List SqlitefsCell} {pages : List ℕ} (htable : SqliteTable data depth number cells pages)
    (hlevels : depth < levels) : SqliteTree data 1 levels number cells pages := by
  induction depth generalizing levels number cells pages with
  | zero =>
    obtain ⟨page, h, segs, last, lastPages, htype, hnode, -⟩ := htable
    obtain ⟨levels, rfl⟩ := Nat.exists_eq_succ_of_ne_zero (Nat.ne_of_gt hlevels)
    exact ⟨page, h, segs, last, lastPages, htype ▸ rfl, hnode.mono fun _ _ _ hfalse => hfalse.elim⟩
  | succ depth ih =>
    obtain ⟨page, h, segs, last, lastPages, htype, hnode, -⟩ := htable
    obtain ⟨levels, rfl⟩ := Nat.exists_eq_succ_of_ne_zero (Nat.ne_zero_of_lt hlevels)
    exact ⟨page, h, segs, last, lastPages, htype ▸ rfl,
      hnode.mono fun _ _ _ htree => ih htree (Nat.lt_of_succ_lt_succ hlevels)⟩

/-- A table of that depth has as many leaves as a binary tree at least. -/
theorem SqliteTable.two_pow_le {data : SqlitefsData} {depth number : ℕ} {cells : List SqlitefsCell}
    {pages : List ℕ} (htable : SqliteTable data depth number cells pages) :
    2 ^ depth ≤ pages.length := by
  induction depth generalizing number cells pages with
  | zero =>
    obtain ⟨page, h, segs, last, lastPages, -, hnode, -⟩ := htable
    rw [hnode.pages_eq, List.length_cons]
    exact Nat.succ_le_succ (Nat.zero_le _)
  | succ depth ih =>
    obtain ⟨page, h, segs, last, lastPages, htype, hnode, hcells, -⟩ := htable
    have hinterior : sqlitefsInterior h.pageType = true := htype ▸ rfl
    have hbelow : ∀ {number cells pages}, SqliteBelow (SqliteTable data depth) h number cells pages →
        2 ^ depth ≤ pages.length := by
      intro number cells pages hbelow
      rw [SqliteBelow, if_pos hinterior] at hbelow
      exact ih hbelow
    have hsegs := hnode.segments
    have hlen := hnode.length_eq
    have hright := hbelow hnode.right
    rw [hnode.pages_eq, List.length_cons, List.length_append]
    cases segs with
    | nil =>
      rw [List.length_nil] at hlen
      omega
    | cons seg segs =>
      have hleft := hbelow hsegs.1.below
      rw [segmentPages, List.flatMap_cons, List.length_append]
      omega

/-- Where keys separate the segments, rows that ascend in each of them ascend throughout. -/
theorem SqliteSeparated.rowsAscend {Key : ℕ → ℤ → Prop} {segs : List SqliteSegment}
    {last : List SqlitefsCell} (hsep : SqliteSeparated Key segs last)
    (hsegs : ∀ seg ∈ segs, RowsAscend (seg.child ++ seg.own)) (hlast : RowsAscend last) :
    RowsAscend (segmentCells segs ++ last) := by
  induction segs generalizing Key with
  | nil => exact hlast
  | cons seg segs ih =>
    rw [segmentCells, List.flatMap_cons, List.append_assoc]
    refine List.pairwise_append.mpr ⟨hsegs seg List.mem_cons_self, ?_, ?_⟩
    · refine @ih (fun i => Key (i + 1)) (fun i hi => ?_) fun seg' hseg' =>
        hsegs seg' (List.mem_cons_of_mem _ hseg')
      obtain ⟨key, hkey, hle, hlt⟩ := hsep (i + 1) (Nat.succ_lt_succ hi)
      refine ⟨key, hkey, fun cell hcell => hle cell ?_, hlt⟩
      rw [List.take_succ_cons, segmentCells, List.flatMap_cons]
      exact List.mem_append_right _ hcell
    · intro c hc c' hc'
      obtain ⟨key, -, hle, hlt⟩ := hsep 0 (Nat.succ_pos _)
      refine lt_of_le_of_lt (hle c ?_) (hlt c' hc')
      rw [List.take_succ_cons, segmentCells, List.flatMap_cons]
      exact List.mem_append_left _ hc

theorem SqliteTable.rowsAscend {data : SqlitefsData} {depth number : ℕ} {cells : List SqlitefsCell}
    {pages : List ℕ} (htable : SqliteTable data depth number cells pages) : RowsAscend cells := by
  induction depth generalizing number cells pages with
  | zero =>
    obtain ⟨page, h, segs, last, lastPages, -, -, hrows⟩ := htable
    exact hrows
  | succ depth ih =>
    obtain ⟨page, h, segs, last, lastPages, htype, hnode, -, hsep⟩ := htable
    have hinterior : sqlitefsInterior h.pageType = true := htype ▸ rfl
    have hbelow : ∀ {number cells pages}, SqliteBelow (SqliteTable data depth) h number cells pages →
        RowsAscend cells := by
      intro number cells pages hbelow
      rw [SqliteBelow, if_pos hinterior] at hbelow
      exact ih hbelow
    rw [hnode.cells_eq]
    refine hsep.rowsAscend (fun seg hseg => ?_) (hbelow hnode.right)
    obtain ⟨j, hat⟩ := hnode.segments.of_mem hseg
    have hown := hat.own
    rw [SqliteOwn, if_pos htype] at hown
    rw [hown, List.append_nil]
    exact hbelow hat.below

/-- A table whose pages are distinct is not too deep for the walk. -/
theorem SqliteTable.depth_lt {data : SqlitefsData} {depth number : ℕ} {cells : List SqlitefsCell}
    {pages : List ℕ} (htable : SqliteTable data depth number cells pages) (hnodup : pages.Nodup) :
    depth < SQLITEFS_BTREE_DEPTH_MAX := by
  have hlen := length_le_of_pages hnodup fun _ hq =>
    (htable.tree (Nat.lt_succ_self depth)).mem_pages hq
  have hpow : 2 ^ depth < 2 ^ 32 :=
    Nat.lt_of_le_of_lt (Nat.le_trans htable.two_pow_le hlen) data.pages_lt
  exact Nat.lt_trans ((Nat.pow_lt_pow_iff_right (by decide)).mp hpow) (by decide)

/-! ### Records -/

/-- The size of a column of that serial type. -/
def SqliteColumnSize (serial size : ℕ) : Prop :=
  (serial, size) ∈ [(0, 0), (1, 1), (2, 2), (3, 3), (4, 4), (5, 6), (6, 8), (7, 8), (8, 0), (9, 0)]
    ∨ 12 ≤ serial ∧ (serial = 2 * size + 12 ∨ serial = 2 * size + 13)

theorem sqlitefsSerialSize_eq_some_iff {serial size : ℕ} :
    sqlitefsSerialSize serial = some size ↔ SqliteColumnSize serial size := by
  rw [SqliteColumnSize]
  rcases Nat.lt_or_ge serial 12 with hsmall | hlarge
  · interval_cases serial <;> simp [sqlitefsSerialSize, eq_comm]
  · obtain ⟨k, rfl⟩ := Nat.exists_eq_add_of_le' hlarge
    have hsize : sqlitefsSerialSize (k + 12)
        = some ((k + 12 - if (k + 12) % 2 = 1 then 13 else 12) / 2) := rfl
    rw [hsize, Option.some.injEq]
    have hfixed : (k + 12, size) ∉ [(0, 0), (1, 1), (2, 2), (3, 3), (4, 4), (5, 6), (6, 8), (7, 8),
        (8, 0), (9, 0)] := by
      simp
    rw [or_iff_right hfixed]
    split_ifs <;> omega

/-- The columns behind those bytes of the header and of the body: each has a serial type in the header
and its bytes in the body, right behind those of the last one, and both parts are used up. -/
def SqliteColumns (record : Buf) (size headerSize : ℕ) : ℕ → ℕ → List SqlitefsValue → Prop
  | headerOffset, bodyOffset, [] => headerOffset = headerSize ∧ bodyOffset = size
  | headerOffset, bodyOffset, value :: values => ∃ used,
    IsVarint (record.from headerOffset) value.serial used ∧ headerOffset + used ≤ headerSize
      ∧ SqliteColumnSize value.serial value.size ∧ value.off = bodyOffset
      ∧ bodyOffset + value.size ≤ size
      ∧ SqliteColumns record size headerSize (headerOffset + used) (bodyOffset + value.size) values

theorem IsVarint.pos {p : Buf} {v used : ℕ} (h : IsVarint p v used) : 0 < used := by
  obtain ⟨n, -, rfl, -⟩ | ⟨rfl, -⟩ := h
  · exact Nat.succ_pos n
  · decide

theorem sqlitefsValuesFrom_eq_some_iff {record : Buf} {size headerSize maximum fuel headerOffset
    bodyOffset n : ℕ} {values : List SqlitefsValue} (hheader : headerOffset ≤ headerSize)
    (hbody : bodyOffset ≤ size) (hn : n ≤ maximum) (hfuel : headerSize ≤ headerOffset + fuel) :
    sqlitefsValuesFrom record size headerSize maximum fuel headerOffset bodyOffset n = some values
      ↔ SqliteColumns record size headerSize headerOffset bodyOffset values
        ∧ n + values.length ≤ maximum := by
  induction fuel generalizing headerOffset bodyOffset n values with
  | zero =>
    rw [sqlitefsValuesFrom]
    obtain rfl : headerOffset = headerSize := by omega
    constructor
    · intro h
      split_ifs at h with hdone
      obtain rfl := Option.some.inj h
      exact ⟨⟨rfl, hdone.2⟩, hn⟩
    · rintro ⟨hcolumns, -⟩
      cases values with
      | nil => rw [if_pos ⟨Nat.le_refl _, hcolumns.2⟩]
      | cons value values =>
        obtain ⟨used, hvarint, hle, -⟩ := hcolumns
        have hpos := hvarint.pos
        omega
  | succ fuel ih =>
    rw [sqlitefsValuesFrom]
    by_cases hmore : headerOffset < headerSize
    · rw [if_pos hmore]
      constructor
      · intro h
        split_ifs at h with hmax
        split at h
        · cases h
        next serial used hread =>
        split at h
        · cases h
        next valueSize hsize =>
        split_ifs at h with hroom
        obtain ⟨hvarint, hused⟩ := sqlitefsReadVarint_eq_some_iff.mp hread
        obtain ⟨rest, hrest, rfl⟩ := Option.map_eq_some_iff.mp h
        have hpos := hvarint.pos
        obtain ⟨hcolumns, hlen⟩ := (ih (by omega) (by omega) (by omega) (by omega)).mp hrest
        refine ⟨⟨used, hvarint, by omega, sqlitefsSerialSize_eq_some_iff.mp hsize, rfl,
          by simp only; omega, hcolumns⟩, ?_⟩
        rw [List.length_cons]
        omega
      · rintro ⟨hcolumns, hlen⟩
        cases values with
        | nil =>
          have hend := hcolumns.1
          omega
        | cons value values =>
          obtain ⟨used, hvarint, hle, hsize, hoff, hroom, hcolumns⟩ := hcolumns
          have hpos := hvarint.pos
          rw [List.length_cons] at hlen
          rw [if_neg (by omega), sqlitefsReadVarint_eq_some_iff.mpr ⟨hvarint, by omega⟩]
          simp only
          rw [sqlitefsSerialSize_eq_some_iff.mpr hsize]
          simp only
          rw [if_neg (by omega), (ih (by omega) (by omega) (by omega) (by omega)).mpr
            ⟨hcolumns, by omega⟩, Option.map_some, ← hoff]
    · rw [if_neg hmore]
      obtain rfl : headerOffset = headerSize := by omega
      constructor
      · intro h
        split_ifs at h with hdone
        obtain rfl := Option.some.inj h
        exact ⟨⟨rfl, hdone⟩, hn⟩
      · rintro ⟨hcolumns, -⟩
        cases values with
        | nil => rw [if_pos hcolumns.2]
        | cons value values =>
          obtain ⟨used, hvarint, hle, -⟩ := hcolumns
          have hpos := hvarint.pos
          omega

/-- A record of that size: the length of its header, which counts itself, then the serial types, then
the columns. -/
def SqliteRecord (record : Buf) (size headerSize : ℕ) (values : List SqlitefsValue) : Prop :=
  ∃ used, IsVarint record headerSize used ∧ used ≤ headerSize ∧ headerSize ≤ size
    ∧ SqliteColumns record size headerSize used headerSize values

/-- A record is split as the file format says, if it has no more columns than there is room for. -/
theorem sqlitefsRecordValues_eq_ok_iff {record : Buf} {size maximum : ℕ}
    {values : List SqlitefsValue} :
    sqlitefsRecordValues record size maximum = .ok values
      ↔ (∃ headerSize, SqliteRecord record size headerSize values) ∧ values.length ≤ maximum := by
  rw [sqlitefsRecordValues]
  constructor
  · intro h
    split at h
    · cases h
    next headerSize used hread =>
    split_ifs at h with hbad
    split at h
    · cases h
    next values' hvalues =>
    obtain rfl := Except.ok.inj h
    obtain ⟨hvarint, hused⟩ := sqlitefsReadVarint_eq_some_iff.mp hread
    obtain ⟨hcolumns, hlen⟩ := (sqlitefsValuesFrom_eq_some_iff (by omega) (by omega)
      (Nat.zero_le _) (by omega)).mp hvalues
    exact ⟨⟨headerSize, used, hvarint, by omega, by omega, hcolumns⟩, by omega⟩
  · rintro ⟨⟨headerSize, used, hvarint, hused, hle, hcolumns⟩, hlen⟩
    rw [sqlitefsReadVarint_eq_some_iff.mpr ⟨hvarint, by omega⟩]
    simp only
    rw [if_neg (by omega), (sqlitefsValuesFrom_eq_some_iff hused hle (Nat.zero_le _) (by omega)).mpr
      ⟨hcolumns, by omega⟩]

/-- The bytes of a column. -/
def SqlitefsValue.data (record : Buf) (value : SqlitefsValue) : List UInt8 :=
  (List.range value.size).map (record.from value.off)

/-- The columns of a record fill it behind its header. -/
theorem SqliteColumns.data_eq {record : Buf} {size headerSize headerOffset bodyOffset : ℕ}
    {values : List SqlitefsValue}
    (h : SqliteColumns record size headerSize headerOffset bodyOffset values) :
    values.flatMap (SqlitefsValue.data record)
      = (List.range (size - bodyOffset)).map (record.from bodyOffset) := by
  induction values generalizing headerOffset bodyOffset with
  | nil =>
    rw [h.2, Nat.sub_self]
    rfl
  | cons value values ih =>
    obtain ⟨used, -, -, -, hoff, hroom, hcolumns⟩ := h
    rw [List.flatMap_cons, ih hcolumns, SqlitefsValue.data, hoff,
      show size - bodyOffset = value.size + (size - (bodyOffset + value.size)) by omega,
      List.range_add, List.map_append, List.map_map]
    refine congrArg _ (List.map_congr_left fun k _ => ?_)
    rw [Function.comp_apply, Buf.from_apply, Buf.from_apply, Nat.add_assoc]

theorem SqliteColumns.inside {record : Buf} {size headerSize headerOffset bodyOffset : ℕ}
    {values : List SqlitefsValue} {value : SqlitefsValue}
    (h : SqliteColumns record size headerSize headerOffset bodyOffset values)
    (hvalue : value ∈ values) : bodyOffset ≤ value.off ∧ value.off + value.size ≤ size := by
  induction values generalizing headerOffset bodyOffset with
  | nil => cases hvalue
  | cons value' values ih =>
    obtain ⟨used, -, -, -, hoff, hroom, hcolumns⟩ := h
    rcases List.mem_cons.mp hvalue with rfl | hvalue
    · omega
    · have hinside := ih hcolumns hvalue
      omega

/-! ### The walk from a root -/

/-- A walk that is not stopped delivers the cells of the b-tree in order, each with its payload; of a
table these are the cells of the leaves, of an index those of all pages. It counts no more pages than
there are. A well-formed table is walked to its end, and delivered by ascending rowid. A record is
split into the columns that fill it. -/
theorem sqlitefsWalk_exact (data : SqlitefsData) (hook : List SqlitefsCell → SqlitefsCell → Bool)
    (root : ℕ) :
    (∀ w, sqlitefsWalkBtree data hook root = .ok w → w.stopped = false →
      ∃ pages, SqliteTree data w.family SQLITEFS_BTREE_DEPTH_MAX root w.delivered pages
        ∧ w.pagesSeen = pages.length ∧ pages.length ≤ data.pages
        ∧ (w.family = 1 → ∀ cell ∈ w.delivered, cell.pageType = SQLITEFS_PAGE_TABLE_LEAF))
    ∧ (∀ depth cells pages, SqliteTable data depth root cells pages → pages.Nodup →
      HookPasses hook [] cells →
        (∃ w, sqlitefsWalkBtree data hook root = .ok w ∧ w.stopped = false ∧ w.delivered = cells)
        ∧ RowsAscend cells)
    ∧ ∀ record size maximum values, sqlitefsRecordValues record size maximum = .ok values →
      ∃ headerSize, SqliteRecord record size headerSize values
        ∧ (∀ value ∈ values, headerSize ≤ value.off ∧ value.off + value.size ≤ size)
        ∧ values.flatMap (SqlitefsValue.data record)
          = (List.range (size - headerSize)).map (record.from headerSize) := by
  have hrun : SqlitefsWalk.stopped
      { delivered := [], pagesSeen := 0, family := 0, stopped := false } = false := rfl
  refine ⟨fun w hw hstop => ?_, fun depth cells pages htable hnodup hpasses => ?_,
    fun record size maximum values hvalues => ?_⟩
  · obtain ⟨family, cells, pages, -, htree, hadds⟩ := (sqlitefsWalkPage_iff hrun).mp ⟨hw, hstop⟩
    obtain rfl : w.family = family := hadds.family
    have hdelivered : w.delivered = cells := hadds.delivered
    have hseen := hadds.seen
    have hroom := hadds.room
    rw [Nat.zero_add] at hseen hroom
    rw [← hdelivered] at htree
    refine ⟨pages, htree, hseen, hroom, fun htable cell hcell => ?_⟩
    rw [htable] at htree
    exact htree.leaf_of_table hcell
  · have htree := htable.tree (htable.depth_lt hnodup)
    have hlen := length_le_of_pages hnodup fun _ hq => htree.mem_pages hq
    have hadds : WalkAdds data hook { delivered := [], pagesSeen := 0, family := 1, stopped := false }
        ⟨cells, pages.length, 1, false⟩ cells pages.length :=
      ⟨rfl, (Nat.zero_add _).symm, by rw [Nat.zero_add]; exact hlen, rfl, hpasses, rfl⟩
    obtain ⟨hw, hstop⟩ := (sqlitefsWalkPage_iff hrun).mpr ⟨1, cells, pages, .inl rfl, htree, hadds⟩
    exact ⟨⟨_, hw, hstop, rfl⟩, htable.rowsAscend⟩
  · obtain ⟨⟨headerSize, used, hvarint, hused, hle, hcolumns⟩, -⟩ :=
      sqlitefsRecordValues_eq_ok_iff.mp hvalues
    exact ⟨headerSize, ⟨used, hvarint, hused, hle, hcolumns⟩, fun _ hvalue => hcolumns.inside hvalue,
      hcolumns.data_eq⟩

/-- A database of four pages of 512 bytes with these fields behind its header. -/
def sqliteDiskOf (fields : List (ℕ × List UInt8)) : SqlitefsDisk where
  byte := Buf.ofFields ((0, sqlitefsMagic ++ [2, 0, 1, 1, 0, 64, 32, 32]) :: (44, [0, 0, 0, 4])
    :: (56, [0, 0, 0, 1]) :: fields)
  fault _ _ := none
  sectors := some 4

/-- An index whose root is page 2: a cell without payload between two empty leaves. -/
def sqliteIndexDisk : SqlitefsDisk :=
  sqliteDiskOf [(512, [2, 0, 0, 0, 1, 0, 0, 0, 0, 0, 0, 4, 1, 0]), (768, [0, 0, 0, 3, 0]),
    (1024, [10]), (1536, [10])]

/-- The walk of an index delivers the cell of an interior page. -/
theorem sqlitefsWalkBtree_interior : ∃ data w, sqlitefsMount sqliteIndexDisk = .ok data
    ∧ sqlitefsWalkBtree data (fun _ _ => false) 2 = .ok w ∧ w.stopped = false
    ∧ ¬ ∀ cell ∈ w.delivered, cell.pageType = SQLITEFS_PAGE_INDEX_LEAF
      ∨ cell.pageType = SQLITEFS_PAGE_TABLE_LEAF := by
  have hrun : ((sqlitefsMount sqliteIndexDisk >>= fun data =>
      sqlitefsWalkBtree data (fun _ _ => false) 2).toOption.map fun w => (w.stopped, w.delivered))
      = some (false, [⟨2, 2, 0, 0, []⟩]) := by
    decide
  obtain ⟨w, hw, hresult⟩ := Option.map_eq_some_iff.mp hrun
  obtain ⟨hstop, hdelivered⟩ := Prod.mk.inj hresult
  have hok : (sqlitefsMount sqliteIndexDisk >>= fun data =>
      sqlitefsWalkBtree data (fun _ _ => false) 2) = .ok w :=
    (eq_ok_get (hw ▸ rfl)).trans (congrArg _ (Option.get_of_eq_some _ hw))
  obtain ⟨data, hmount, hwalk⟩ := bind_eq_ok_iff.mp hok
  refine ⟨data, w, hmount, hwalk, hstop, fun hleaf => ?_⟩
  have hcell := hleaf ⟨2, 2, 0, 0, []⟩ (hdelivered ▸ List.mem_cons_self)
  revert hcell
  decide

/-- A table whose root is page 2: the row 1 with the column 7. -/
def sqliteTableDisk : SqlitefsDisk :=
  sqliteDiskOf [(512, [13, 0, 0, 0, 1, 0, 0, 0, 1, 0]), (768, [3, 1, 2, 1, 7])]

/-- The table of the database `sqliteTableDisk`. -/
def sqliteTableData : SqlitefsData where
  disk := sqliteTableDisk
  pageSize := 512
  usableSize := 512
  pages := 4
  pages_lt := by decide
  usable_le := by decide
  usable_le_page := by decide

theorem sqlitefsWalk_exact_one_row :
    (∃ w, sqlitefsWalkBtree sqliteTableData (fun _ _ => false) 2 = .ok w ∧ w.stopped = false
      ∧ w.delivered = [⟨13, 2, 0, 1, [2, 1, 7]⟩])
    ∧ RowsAscend [⟨13, 2, 0, 1, [2, 1, 7]⟩] := by
  have hcell : sqlitefsCellAt sqliteTableData (sqliteTableDisk.byte.from 512) 2 13 0 256
      = .ok ⟨13, 2, 0, 1, [2, 1, 7]⟩ := by
    decide
  refine (sqlitefsWalk_exact sqliteTableData (fun _ _ => false) 2).2.1 0 _ [2] ?_
    (List.nodup_singleton 2) ⟨rfl, trivial⟩
  refine ⟨sqliteTableDisk.byte.from 512, ⟨0, 13, 1⟩, [⟨[], [], [⟨13, 2, 0, 1, [2, 1, 7]⟩]⟩], [], [], rfl,
    ⟨⟨by decide, rfl, rfl, by decide, .inr (.inr rfl), by decide, by decide⟩, rfl,
      ⟨⟨?_, ⟨rfl, rfl⟩, ?_⟩, trivial⟩, ⟨rfl, rfl⟩, rfl, rfl⟩, List.pairwise_singleton _ _⟩
  · refine ⟨?_, ?_, fun h => by cases h⟩ <;> decide
  · exact ⟨_, rfl, sqlitefsCellAt_eq_ok_iff.mp hcell⟩

end FsRover
