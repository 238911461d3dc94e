import FsRover.Fs.Sqlitefs
import Mathlib.Data.Finset.Card
import Mathlib.Order.Interval.Finset.Nat

/-!
# The walk over a b-tree of SQLite

The file format says what a variable-length integer, a payload with its overflow chain, a cell, a page
and a b-tree are. A chain of overflow pages that ends uses no page twice, so the bound of the code on
its length never cuts one off. The walk of a page that is not stopped delivers the cells of the b-tree
below it in order, and where there is one that fits, it does so.

## Main definitions

* `FsRover.SqlitePage`, `FsRover.SqliteTree` : the cells of a b-tree, in order.
* `FsRover.WalkAdds` : what a part of a walk delivers.

## Main results

* `FsRover.sqlitefsCellAt_eq_ok_iff` : a cell is read as the format says.
* `FsRover.sqlitefsWalkPage_iff` : what a walk delivers.
-/

namespace FsRover

open Guards

/-! ### Variable-length integers -/

/-- The number of the low seven bits of `n` bytes. -/
def varintSum (p : Buf) : ℕ → ℕ
  | 0 => 0
  | n + 1 => varintSum p n * 2 ^ 7 + byteAt p n % 2 ^ 7

/-- A variable-length integer of the file format: all bytes but the last one have the high bit, and
a ninth byte counts as a whole. -/
def IsVarint (p : Buf) (v used : ℕ) : Prop :=
  (∃ n < 8, used = n + 1 ∧ (∀ i < n, 2 ^ 7 ≤ byteAt p i) ∧ byteAt p n < 2 ^ 7
    ∧ v = varintSum p (n + 1))
  ∨ (used = 9 ∧ (∀ i < 8, 2 ^ 7 ≤ byteAt p i) ∧ v = varintSum p 8 * 2 ^ 8 + byteAt p 8)

theorem sqlitefsReadVarintFrom_eq_some_iff {p : Buf} {available n i : ℕ} {v used : ℕ}
    (hn : n + i = 8) (hi : i ≤ available) (hhigh : ∀ j < i, 2 ^ 7 ≤ byteAt p j) :
    sqlitefsReadVarintFrom p available n i (varintSum p i) = some (v, used)
      ↔ IsVarint p v used ∧ used ≤ available := by
  induction n generalizing i with
  | zero =>
    obtain rfl : i = 8 := by omega
    rw [sqlitefsReadVarintFrom]
    constructor
    · intro h
      split_ifs at h with hnine
      obtain ⟨rfl, rfl⟩ := Prod.mk.inj (Option.some.inj h)
      exact ⟨.inr ⟨rfl, hhigh, rfl⟩, hnine⟩
    · rintro ⟨⟨n, hn, -, -, hlow, -⟩ | ⟨rfl, -, rfl⟩, hle⟩
      · have hbyte := hhigh n hn
        omega
      · rw [if_pos hle]
  | succ n ih =>
    rw [sqlitefsReadVarintFrom]
    by_cases hav : i < available
    · rw [if_pos hav]
      have hsum : varintSum p i * 2 ^ 7 + byteAt p i % 2 ^ 7 = varintSum p (i + 1) := rfl
      simp only [hsum]
      by_cases hlow : byteAt p i < 2 ^ 7
      · rw [if_pos hlow]
        constructor
        · intro h
          obtain ⟨rfl, rfl⟩ := Prod.mk.inj (Option.some.inj h)
          exact ⟨.inl ⟨i, by omega, rfl, hhigh, hlow, rfl⟩, hav⟩
        · rintro ⟨⟨m, hm, rfl, hbytes, hlast, rfl⟩ | ⟨rfl, hbytes, -⟩, hle⟩
          · rcases Nat.lt_trichotomy m i with hlt | rfl | hgt
            · have hbyte := hhigh m hlt
              omega
            · rfl
            · have hbyte := hbytes i hgt
              omega
          · have hbyte := hbytes i (by omega)
            omega
      · rw [if_neg hlow]
        refine ih (by omega) hav fun j hj => ?_
        rcases Nat.lt_succ_iff_lt_or_eq.mp hj with hj | rfl
        · exact hhigh j hj
        · exact Nat.not_lt.mp hlow
    · rw [if_neg hav]
      obtain rfl : i = available := by omega
      constructor
      · intro h
        cases h
      · rintro ⟨⟨m, hm, rfl, hbytes, hlast, rfl⟩ | ⟨rfl, hbytes, -⟩, hle⟩
        · have hbyte := hhigh m (by omega)
          omega
        · omega

theorem sqlitefsReadVarint_eq_some_iff {p : Buf} {available v used : ℕ} :
    sqlitefsReadVarint p available = some (v, used) ↔ IsVarint p v used ∧ used ≤ available :=
  sqlitefsReadVarintFrom_eq_some_iff rfl (Nat.zero_le _) fun j hj => by cases hj

/-! ### Payloads -/

/-- The bytes of a payload that a page holds, by the file format: with `U` usable bytes, `X` is the
most that is kept whole and `M` the least that is kept. -/
def sqliteLocal (U pageType P : ℕ) : ℕ :=
  let X := if pageType = SQLITEFS_PAGE_TABLE_LEAF then U - 35 else (U - 12) * 64 / 255 - 23
  let M := (U - 12) * 32 / 255 - 23
  let K := M + (P - M) % (U - 4)
  if P ≤ X then P else if K ≤ X then K else M

theorem sqlitefsLocalPayload_eq (data : SqlitefsData) (pageType P : ℕ) :
    sqlitefsLocalPayload data pageType P = sqliteLocal data.usableSize pageType P := by
  rw [sqlitefsLocalPayload, sqliteLocal]
  refine ite_congr rfl (fun _ => rfl) fun _ => ?_
  simp only
  split_ifs <;> omega

/-- A chain of overflow pages from `page` on that holds `left` bytes: each page names the next one,
and the last one none. -/
inductive SqliteChain (data : SqlitefsData) : ℕ → ℕ → List UInt8 → List ℕ → Prop
  | done : SqliteChain data 0 0 [] []
  | link {page left : ℕ} {next bytes : Buf} {rest : List UInt8} {pages : List ℕ} (hleft : left ≠ 0)
    (hpage : page ≠ 0 ∧ page ≤ data.pages)
    (hnext : data.disk.read ((page - 1) * data.pageSize) 4 = .ok next)
    (hbytes : data.disk.read ((page - 1) * data.pageSize + 4) (min left (data.usableSize - 4))
      = .ok bytes)
    (hrest : SqliteChain data (lostBe32 next 0) (left - min left (data.usableSize - 4)) rest pages) :
    SqliteChain data page left
      ((List.range (min left (data.usableSize - 4))).map bytes ++ rest) (page :: pages)

theorem sqlitefsOverflow_eq_ok_iff {data : SqlitefsData} {links page left : ℕ} {bs : List UInt8} :
    sqlitefsOverflow data links page left = .ok bs
      ↔ ∃ pages, SqliteChain data page left bs pages ∧ pages.length ≤ links := by
  induction links generalizing page left bs with
  | zero =>
    rw [sqlitefsOverflow]
    constructor
    · intro h
      split_ifs at h with hdone
      obtain ⟨rfl, rfl⟩ := hdone
      obtain rfl := Except.ok.inj h
      exact ⟨[], .done, Nat.le_refl _⟩
    · rintro ⟨pages, hchain, hle⟩
      cases hchain with
      | done => rfl
      | link _ _ _ _ _ => cases hle
  | succ links ih =>
    rw [sqlitefsOverflow]
    by_cases hleft : left = 0
    · rw [if_pos hleft]
      constructor
      · intro h
        split_ifs at h with hpage
        obtain rfl := Except.ok.inj h
        obtain rfl := hleft
        obtain rfl := hpage
        exact ⟨[], .done, Nat.zero_le _⟩
      · rintro ⟨pages, hchain, -⟩
        cases hchain with
        | done => rfl
        | link hne _ _ _ _ => exact absurd hleft hne
    rw [if_neg hleft]
    by_cases hbad : page = 0 ∨ data.pages < page
    · rw [if_pos hbad]
      constructor
      · intro h
        cases h
      · rintro ⟨pages, hchain, -⟩
        cases hchain with
        | done => exact absurd rfl hleft
        | link _ hpage _ _ _ => omega
    rw [if_neg hbad]
    simp only [bind_eq_ok_iff, ih]
    constructor
    · rintro ⟨next, hnext, bytes, hbytes, rest, ⟨pages, hchain, hle⟩, h⟩
      obtain rfl := Except.ok.inj h
      exact ⟨page :: pages, .link hleft (by omega) hnext hbytes hchain, Nat.succ_le_succ hle⟩
    · rintro ⟨pages, hchain, hle⟩
      cases hchain with
      | done => exact absurd rfl hleft
      | link _ _ hnext hbytes hrest =>
        exact ⟨_, hnext, _, hbytes, _, ⟨_, hrest, Nat.le_of_succ_le_succ hle⟩, rfl⟩

/-- A page names the same next page whatever it is asked for, so two chains that start at one page
run over the same pages. -/
theorem SqliteChain.pages_unique {data : SqlitefsData} {page left left' : ℕ} {bs bs' : List UInt8}
    {pages pages' : List ℕ} (h : SqliteChain data page left bs pages)
    (h' : SqliteChain data page left' bs' pages') : pages = pages' := by
  induction h generalizing left' bs' pages' with
  | done =>
    cases h' with
    | done => rfl
    | link _ hpage _ _ _ => exact absurd rfl hpage.1
  | link _ hpage hnext _ _ ih =>
    cases h' with
    | done => exact absurd rfl hpage.1
    | link _ _ hnext' _ hrest' =>
      obtain rfl := Except.ok.inj (hnext.symm.trans hnext')
      rw [ih hrest']

theorem SqliteChain.exists_of_mem {data : SqlitefsData} {page left q : ℕ} {bs : List UInt8}
    {pages : List ℕ} (h : SqliteChain data page left bs pages) (hq : q ∈ pages) :
    ∃ left bs rest, SqliteChain data q left bs rest ∧ rest.length ≤ pages.length := by
  induction h with
  | done => cases hq
  | link hleft hpage hnext hbytes hrest ih =>
    rcases List.mem_cons.mp hq with rfl | hq
    · exact ⟨_, _, _, .link hleft hpage hnext hbytes hrest, Nat.le_refl _⟩
    · obtain ⟨left, bs, rest, hchain, hle⟩ := ih hq
      exact ⟨left, bs, rest, hchain, Nat.le_succ_of_le hle⟩

/-- A chain that ends uses no page twice. -/
theorem SqliteChain.nodup {data : SqlitefsData} {page left : ℕ} {bs : List UInt8} {pages : List ℕ}
    (h : SqliteChain data page left bs pages) : pages.Nodup := by
  induction h with
  | done => exact List.nodup_nil
  | link hleft hpage hnext hbytes hrest ih =>
    refine List.nodup_cons.mpr ⟨fun hmem => ?_, ih⟩
    obtain ⟨left', bs', rest', hchain, hle⟩ := hrest.exists_of_mem hmem
    rw [← (SqliteChain.link hleft hpage hnext hbytes hrest).pages_unique hchain,
      List.length_cons] at hle
    exact Nat.not_succ_le_self _ hle

theorem SqliteChain.mem_le {data : SqlitefsData} {page left q : ℕ} {bs : List UInt8}
    {pages : List ℕ} (h : SqliteChain data page left bs pages) (hq : q ∈ pages) :
    q ≠ 0 ∧ q ≤ data.pages := by
  induction h with
  | done => cases hq
  | link _ hpage _ _ _ ih =>
    rcases List.mem_cons.mp hq with rfl | hq
    · exact hpage
    · exact ih hq

/-- Distinct page numbers of a database are no more than it has pages. -/
theorem length_le_of_pages {n : ℕ} {pages : List ℕ} (hnodup : pages.Nodup)
    (hmem : ∀ q ∈ pages, q ≠ 0 ∧ q ≤ n) : pages.length ≤ n := by
  have hsub : pages.toFinset ⊆ Finset.Icc 1 n := by
    intro q hq
    obtain ⟨hpos, hle⟩ := hmem q (List.mem_toFinset.mp hq)
    exact Finset.mem_Icc.mpr ⟨Nat.one_le_iff_ne_zero.mpr hpos, hle⟩
  have hcard := Finset.card_le_card hsub
  rw [List.toFinset_card_of_nodup hnodup, Nat.card_Icc] at hcard
  exact hcard

theorem SqliteChain.length_le {data : SqlitefsData} {page left : ℕ} {bs : List UInt8}
    {pages : List ℕ} (h : SqliteChain data page left bs pages) : pages.length ≤ data.pages :=
  length_le_of_pages h.nodup fun _ hq => h.mem_le hq

/-- A payload of `size` bytes that starts at `off` of a page: the local bytes, then the overflow
chain. -/
def SqlitePayload (data : SqlitefsData) (page : Buf) (pageType off size : ℕ) (bs : List UInt8) :
    Prop :=
  let stored := sqliteLocal data.usableSize pageType size
  off + stored + (if stored = size then 0 else 4) ≤ data.usableSize
    ∧ ∃ rest pages, SqliteChain data (if stored = size then 0 else lostBe32 page (off + stored))
        (size - stored) rest pages
      ∧ bs = (List.range stored).map (page.from off) ++ rest

theorem sqlitefsPayload_eq_ok_iff {data : SqlitefsData} {page : Buf} {cellOffset pageType size
    payloadOffset : ℕ} {bs : List UInt8} (hoff : cellOffset + payloadOffset ≤ data.usableSize) :
    sqlitefsPayload data page cellOffset pageType size payloadOffset = .ok bs
      ↔ SqlitePayload data page pageType (cellOffset + payloadOffset) size bs := by
  rw [sqlitefsPayload, SqlitePayload, sqlitefsLocalPayload_eq]
  generalize sqliteLocal data.usableSize pageType size = stored
  rw [refuseIf_bind_eq_ok_iff, refuseIf_bind_eq_ok_iff, bind_eq_ok_iff]
  simp only [sqlitefsOverflow_eq_ok_iff, ne_eq, ite_not]
  constructor
  · rintro ⟨hfits, hnext, rest, ⟨pages, hchain, hle⟩, h⟩
    obtain rfl := Except.ok.inj h
    refine ⟨?_, rest, pages, hchain, rfl⟩
    split_ifs with hwhole
    · omega
    · have hroom := not_and.mp hnext hwhole
      omega
  · rintro ⟨hfits, rest, pages, hchain, rfl⟩
    refine ⟨by omega, ?_, rest, ⟨pages, hchain, hchain.length_le⟩, rfl⟩
    rintro ⟨hwhole, hroom⟩
    rw [if_neg hwhole] at hfits
    omega

/-! ### Cells -/

/-- Cell number `cellNumber` of a page, at `off`: the length of the payload, in a table leaf the
rowid, and the payload, behind the child page in an index. -/
def SqliteCell (data : SqlitefsData) (page : Buf) (pageNumber pageType cellNumber off : ℕ)
    (cell : SqlitefsCell) : Prop :=
  let start := off + if pageType = SQLITEFS_PAGE_INDEX_INTERIOR then 4 else 0
  ∃ size used rowid more, IsVarint (page.from start) size used ∧ start + used ≤ data.usableSize
    ∧ (if pageType = SQLITEFS_PAGE_TABLE_LEAF then IsVarint (page.from (start + used)) rowid more
        ∧ start + used + more ≤ data.usableSize
      else rowid = 0 ∧ more = 0)
    ∧ SqlitePayload data page pageType (start + used + more) size cell.payload
    ∧ cell.pageType = pageType ∧ cell.page = pageNumber ∧ cell.cell = cellNumber
    ∧ cell.rowid = sqlitefsSigned rowid

/-- The rowid is a variable-length integer behind the length, and only in a table leaf. -/
theorem sqlitefsRowidAt_eq_ok_iff {data : SqlitefsData} {page : Buf} {pageType off more rowid
    used : ℕ} (hfits : off + more ≤ data.usableSize) :
    sqlitefsRowidAt data page pageType off more = .ok (rowid, used)
      ↔ if pageType = SQLITEFS_PAGE_TABLE_LEAF then IsVarint (page.from (off + more)) rowid used
          ∧ off + more + used ≤ data.usableSize
        else rowid = 0 ∧ used = 0 := by
  rw [sqlitefsRowidAt]
  by_cases htable : pageType = SQLITEFS_PAGE_TABLE_LEAF
  · rw [if_pos htable, if_pos htable, require_eq_ok_iff, sqlitefsReadVarint_eq_some_iff]
    refine and_congr_right fun _ => ?_
    omega
  · rw [if_neg htable, if_neg htable]
    constructor
    · intro h
      obtain ⟨hrowid, hused⟩ := Prod.mk.inj (Except.ok.inj h)
      exact ⟨hrowid.symm, hused.symm⟩
    · rintro ⟨rfl, rfl⟩
      rfl

/-- A cell is read as the file format says. -/
theorem sqlitefsCellAt_eq_ok_iff {data : SqlitefsData} {page : Buf} {pageNumber pageType cellNumber
    off : ℕ} {cell : SqlitefsCell} :
    sqlitefsCellAt data page pageNumber pageType cellNumber off = .ok cell
      ↔ SqliteCell data page pageNumber pageType cellNumber off cell := by
  rw [sqlitefsCellAt, SqliteCell]
  generalize (if pageType = SQLITEFS_PAGE_INDEX_INTERIOR then 4 else 0) = child
  rw [refuseIf_bind_eq_ok_iff, require_bind_eq_ok_iff]
  constructor
  · rintro ⟨hfits, ⟨size, used⟩, hsize, h⟩
    obtain ⟨hvarint, hused⟩ := sqlitefsReadVarint_eq_some_iff.mp hsize
    obtain ⟨⟨rowid, more⟩, hrow, h⟩ := bind_eq_ok_iff.mp h
    obtain ⟨bs, hpayload, h⟩ := bind_eq_ok_iff.mp h
    obtain rfl := Except.ok.inj h
    rw [sqlitefsRowidAt_eq_ok_iff (by omega), ← Nat.add_assoc] at hrow
    have hmore : off + child + used + more ≤ data.usableSize := by
      split_ifs at hrow with htable
      · exact hrow.2
      · omega
    simp only at hpayload
    rw [sqlitefsPayload_eq_ok_iff (by omega), ← Nat.add_assoc, ← Nat.add_assoc] at hpayload
    exact ⟨size, used, rowid, more, hvarint, by omega, hrow, hpayload, rfl, rfl, rfl, rfl⟩
  · rintro ⟨size, used, rowid, more, hvarint, hused, hrow, hpayload, htype, hpage, hcell, hrowid⟩
    have hmore : off + child + used + more ≤ data.usableSize := by
      have hfits := hpayload.1
      omega
    refine ⟨by omega, (size, used), sqlitefsReadVarint_eq_some_iff.mpr ⟨hvarint, by omega⟩,
      bind_eq_ok_iff.mpr ⟨(rowid, more), ?_, bind_eq_ok_iff.mpr ⟨cell.payload, ?_, ?_⟩⟩⟩
    · rw [sqlitefsRowidAt_eq_ok_iff (by omega), ← Nat.add_assoc]
      exact hrow
    · simp only
      rw [sqlitefsPayload_eq_ok_iff (by omega), ← Nat.add_assoc, ← Nat.add_assoc]
      exact hpayload
    · cases cell
      simp only at htype hpage hcell hrowid
      rw [htype, hpage, hcell, hrowid]

/-! ### Pages -/

/-- Page `number` with its header. -/
structure SqlitePage (data : SqlitefsData) (number : ℕ) (page : Buf) (h : SqlitefsHeader) : Prop where
  in_range : number ≠ 0 ∧ number ≤ data.pages
  read : data.disk.read ((number - 1) * data.pageSize) data.pageSize = .ok page
  start_eq : h.start = if number = 1 then 100 else 0
  type_eq : h.pageType = byteAt page h.start
  type_mem : sqlitefsInterior h.pageType = true ∨ h.pageType = SQLITEFS_PAGE_INDEX_LEAF
    ∨ h.pageType = SQLITEFS_PAGE_TABLE_LEAF
  cells_eq : h.cells = lostBe16 page (h.start + 3)
  fits : h.start + sqlitefsHeaderSize h.pageType + 2 * h.cells ≤ data.usableSize

theorem sqlitefsReadPage_eq_ok_iff {data : SqlitefsData} {number : ℕ} {page : Buf} :
    sqlitefsReadPage data number = .ok page ↔ (number ≠ 0 ∧ number ≤ data.pages)
      ∧ data.disk.read ((number - 1) * data.pageSize) data.pageSize = .ok page := by
  rw [sqlitefsReadPage]
  by_cases hbad : number = 0 ∨ data.pages < number
  · rw [if_pos hbad]
    constructor
    · intro h
      cases h
    · rintro ⟨hrange, -⟩
      omega
  · rw [if_neg hbad]
    exact ⟨fun h => ⟨by omega, h⟩, fun h => h.2⟩

theorem sqlitefsOpenPage_eq_ok_iff {data : SqlitefsData} {family number : ℕ} {page : Buf}
    {h : SqlitefsHeader} :
    sqlitefsOpenPage data family number = .ok (page, h)
      ↔ SqlitePage data number page h ∧ (family = 0 ∨ family = sqlitefsFamily h.pageType) := by
  rw [sqlitefsOpenPage]
  simp only
  rw [bind_eq_ok_iff]
  constructor
  · rintro ⟨page', hread, hrest⟩
    rw [refuseIf_bind_eq_ok_iff, refuseIf_bind_eq_ok_iff, refuseIf_bind_eq_ok_iff,
      refuseIf_bind_eq_ok_iff] at hrest
    obtain ⟨htype, hfamily, hheader, hcells, hrest⟩ := hrest
    obtain ⟨rfl, rfl⟩ := Prod.mk.inj (Except.ok.inj hrest)
    obtain ⟨hrange, hread⟩ := sqlitefsReadPage_eq_ok_iff.mp hread
    refine ⟨⟨hrange, hread, rfl, rfl, ?_, rfl, ?_⟩, ?_⟩
    · by_contra hne
      rw [not_or, not_or, Bool.not_eq_true] at hne
      exact htype hne
    · simp only
      omega
    · simp only
      tauto
  · rintro ⟨hpage, hfamily⟩
    have hstart := hpage.start_eq
    have htype := hpage.type_eq
    have hcells := hpage.cells_eq
    have hfits := hpage.fits
    refine ⟨page, sqlitefsReadPage_eq_ok_iff.mpr ⟨hpage.in_range, hpage.read⟩, ?_⟩
    rw [← hstart, ← htype, ← hcells, refuseIf_bind_eq_ok_iff, refuseIf_bind_eq_ok_iff,
      refuseIf_bind_eq_ok_iff, refuseIf_bind_eq_ok_iff]
    refine ⟨?_, by tauto, by omega, by omega, rfl⟩
    rintro ⟨hleaf, hindex, htable⟩
    rcases hpage.type_mem with hinterior | hleaf | hleaf
    · rw [hinterior] at hleaf
      cases hleaf
    · exact hindex hleaf
    · exact htable hleaf

/-- The pointer to cell `i`. -/
def sqlitePointer (page : Buf) (h : SqlitefsHeader) (i : ℕ) : ℕ :=
  lostBe16 page (h.start + sqlitefsHeaderSize h.pageType + 2 * i)

/-- Cell `i` starts behind the pointers, and inside the page, with room for the child page it may
name. -/
def SqliteRoom (data : SqlitefsData) (page : Buf) (h : SqlitefsHeader) (i : ℕ) : Prop :=
  h.start + sqlitefsHeaderSize h.pageType + 2 * h.cells ≤ sqlitePointer page h i
    ∧ sqlitePointer page h i < data.usableSize
    ∧ (sqlitefsInterior h.pageType = true → sqlitePointer page h i + 4 ≤ data.usableSize)

theorem sqlitefsCellOffset_eq_ok_iff {data : SqlitefsData} {page : Buf} {h : SqlitefsHeader}
    {i off : ℕ} :
    sqlitefsCellOffset data page h i = .ok off ↔ off = sqlitePointer page h i
      ∧ h.start + sqlitefsHeaderSize h.pageType + 2 * h.cells ≤ sqlitePointer page h i
      ∧ sqlitePointer page h i < data.usableSize := by
  rw [sqlitefsCellOffset, sqlitePointer, refuseIf_bind_eq_ok_iff]
  constructor
  · rintro ⟨hroom, h⟩
    obtain rfl := Except.ok.inj h
    omega
  · rintro ⟨rfl, hroom⟩
    exact ⟨by omega, rfl⟩

/-! ### Trees -/

/-- What lies between two pointers of a page: the cells and the pages of the child left of a cell,
and the cell itself where its page has one to deliver. -/
structure SqliteSegment where
  child : List SqlitefsCell
  pages : List ℕ
  own : List SqlitefsCell

/-- The cell of a segment: a table keeps its rows in the leaves, an index in all pages. -/
def SqliteOwn (data : SqlitefsData) (page : Buf) (number : ℕ) (h : SqlitefsHeader) (i : ℕ)
    (own : List SqlitefsCell) : Prop :=
  if h.pageType = SQLITEFS_PAGE_TABLE_INTERIOR then own = []
  else ∃ cell, own = [cell]
    ∧ SqliteCell data page number h.pageType i (sqlitePointer page h i) cell

/-- The part below a page number, which is there in an interior page only. -/
def SqliteBelow (Tree : ℕ → List SqlitefsCell → List ℕ → Prop) (h : SqlitefsHeader) (number : ℕ)
    (cells : List SqlitefsCell) (pages : List ℕ) : Prop :=
  if sqlitefsInterior h.pageType then Tree number cells pages else cells = [] ∧ pages = []

/-- Segment `i` of a page. -/
structure SqliteSegmentAt (data : SqlitefsData) (Tree : ℕ → List SqlitefsCell → List ℕ → Prop)
    (page : Buf) (number : ℕ) (h : SqlitefsHeader) (i : ℕ) (seg : SqliteSegment) : Prop where
  room : SqliteRoom data page h i
  below : SqliteBelow Tree h (lostBe32 page (sqlitePointer page h i)) seg.child seg.pages
  own : SqliteOwn data page number h i seg.own

/-- The segments from `i` on. -/
def SqliteSegments (data : SqlitefsData) (Tree : ℕ → List SqlitefsCell → List ℕ → Prop)
    (page : Buf) (number : ℕ) (h : SqlitefsHeader) : ℕ → List SqliteSegment → Prop
  | _, [] => True
  | i, seg :: segs => SqliteSegmentAt data Tree page number h i seg
    ∧ SqliteSegments data Tree page number h (i + 1) segs

/-- The cells of segments, in order. -/
def segmentCells (segs : List SqliteSegment) : List SqlitefsCell :=
  segs.flatMap fun seg => seg.child ++ seg.own

/-- The pages below segments. -/
def segmentPages (segs : List SqliteSegment) : List ℕ := segs.flatMap fun seg => seg.pages

/-- A page with what is below it: its segments, then the child to the right. -/
structure SqliteNodeAt (data : SqlitefsData) (Tree : ℕ → List SqlitefsCell → List ℕ → Prop)
    (number : ℕ) (page : Buf) (h : SqlitefsHeader) (segs : List SqliteSegment)
    (last : List SqlitefsCell) (lastPages : List ℕ) (cells : List SqlitefsCell) (pages : List ℕ) :
    Prop where
  open_page : SqlitePage data number page h
  length_eq : segs.length = h.cells
  segments : SqliteSegments data Tree page number h 0 segs
  right : SqliteBelow Tree h (lostBe32 page (h.start + 8)) last lastPages
  cells_eq : cells = segmentCells segs ++ last
  pages_eq : pages = number :: (segmentPages segs ++ lastPages)

/-- A page of the family with what is below it. -/
def SqliteNode (data : SqlitefsData) (family : ℕ) (Tree : ℕ → List SqlitefsCell → List ℕ → Prop)
    (number : ℕ) (cells : List SqlitefsCell) (pages : List ℕ) : Prop :=
  ∃ page h segs last lastPages, sqlitefsFamily h.pageType = family
    ∧ SqliteNodeAt data Tree number page h segs last lastPages cells pages

/-- A b-tree of the family with its cells in order and its pages, at most so many levels deep. -/
def SqliteTree (data : SqlitefsData) (family : ℕ) :
    ℕ → ℕ → List SqlitefsCell → List ℕ → Prop
  | 0, _, _, _ => False
  | levels + 1, number, cells, pages =>
    SqliteNode data family (SqliteTree data family levels) number cells pages

/-! ### The walk -/

/-- The hook goes on at each of the cells. -/
def HookPasses (hook : List SqlitefsCell → SqlitefsCell → Bool) :
    List SqlitefsCell → List SqlitefsCell → Prop
  | _, [] => True
  | before, cell :: cells => hook before cell = false ∧ HookPasses hook (before ++ [cell]) cells

theorem hookPasses_append {hook : List SqlitefsCell → SqlitefsCell → Bool}
    {before xs ys : List SqlitefsCell} :
    HookPasses hook before (xs ++ ys)
      ↔ HookPasses hook before xs ∧ HookPasses hook (before ++ xs) ys := by
  induction xs generalizing before with
  | nil => rw [List.nil_append, List.append_nil, HookPasses, true_and]
  | cons x xs ih =>
    rw [List.cons_append, HookPasses, HookPasses, ih, and_assoc, List.append_assoc,
      List.singleton_append]

/-- From one state of a walk to another one, cells were delivered from so many pages. -/
structure WalkAdds (data : SqlitefsData) (hook : List SqlitefsCell → SqlitefsCell → Bool)
    (w w' : SqlitefsWalk) (cells : List SqlitefsCell) (pages : ℕ) : Prop where
  delivered : w'.delivered = w.delivered ++ cells
  seen : w'.pagesSeen = w.pagesSeen + pages
  room : w.pagesSeen + pages ≤ data.pages
  family : w'.family = w.family
  passes : HookPasses hook w.delivered cells
  running : w'.stopped = false

section Walk

variable {data : SqlitefsData} {hook : List SqlitefsCell → SqlitefsCell → Bool}

theorem walkAdds_nil {w w' : SqlitefsWalk} (hrun : w.stopped = false)
    (hroom : w.pagesSeen ≤ data.pages) : WalkAdds data hook w w' [] 0 ↔ w' = w := by
  constructor
  · intro h
    cases w'
    cases w
    have hdelivered := h.delivered
    have hseen := h.seen
    have hfamily := h.family
    have hrunning := h.running
    simp only [List.append_nil, Nat.add_zero] at hdelivered hseen hfamily hrunning hrun
    rw [hdelivered, hseen, hfamily, hrunning, hrun]
  · rintro rfl
    exact ⟨(List.append_nil _).symm, rfl, hroom, rfl, trivial, hrun⟩

theorem walkAdds_append {w w'' : SqlitefsWalk} {xs ys : List SqlitefsCell} {m n : ℕ} :
    WalkAdds data hook w w'' (xs ++ ys) (m + n)
      ↔ ∃ w', WalkAdds data hook w w' xs m ∧ WalkAdds data hook w' w'' ys n := by
  constructor
  · intro h
    have hroom := h.room
    have hseen := h.seen
    obtain ⟨hfirst, hsecond⟩ := hookPasses_append.mp h.passes
    exact ⟨⟨w.delivered ++ xs, w.pagesSeen + m, w.family, false⟩,
      ⟨rfl, rfl, by omega, rfl, hfirst, rfl⟩,
      ⟨by rw [h.delivered, List.append_assoc], by simp only; omega, by simp only; omega, h.family,
        hsecond, h.running⟩⟩
  · rintro ⟨w', h, h'⟩
    have hroom := h'.room
    have hseen := h'.seen
    rw [h.seen] at hroom hseen
    refine ⟨by rw [h'.delivered, h.delivered, List.append_assoc], by omega, by omega,
      h'.family.trans h.family, hookPasses_append.mpr ⟨h.passes, ?_⟩, h'.running⟩
    rw [← h.delivered]
    exact h'.passes

/-- What the walk of a child has to do: it delivers a tree. -/
def WalksTrees (data : SqlitefsData) (hook : List SqlitefsCell → SqlitefsCell → Bool)
    (walkChild : SqlitefsWalk → ℕ → Except GrubError SqlitefsWalk) (family : ℕ)
    (Tree : ℕ → List SqlitefsCell → List ℕ → Prop) : Prop :=
  ∀ w w' number, w.stopped = false → w.family = family → w.pagesSeen ≤ data.pages →
    (walkChild w number = .ok w' ∧ w'.stopped = false
      ↔ ∃ cells pages, Tree number cells pages ∧ WalkAdds data hook w w' cells pages.length)

variable {walkChild : SqlitefsWalk → ℕ → Except GrubError SqlitefsWalk} {family : ℕ}
  {Tree : ℕ → List SqlitefsCell → List ℕ → Prop} {page : Buf} {h : SqlitefsHeader} {number : ℕ}

theorem sqlitefsWalkLeft_iff (hchild : WalksTrees data hook walkChild family Tree) {off : ℕ}
    {w w' : SqlitefsWalk} (hrun : w.stopped = false) (hfamily : w.family = family)
    (hroom : w.pagesSeen ≤ data.pages) :
    sqlitefsWalkLeft data walkChild page h off w = .ok w' ∧ w'.stopped = false
      ↔ (sqlitefsInterior h.pageType = true → off + 4 ≤ data.usableSize)
        ∧ ∃ cells pages, SqliteBelow Tree h (lostBe32 page off) cells pages
          ∧ WalkAdds data hook w w' cells pages.length := by
  unfold sqlitefsWalkLeft SqliteBelow
  by_cases hinterior : sqlitefsInterior h.pageType = true
  · simp only [if_pos hinterior]
    rw [refuseIf_bind_eq_ok_iff, and_assoc, hchild w w' _ hrun hfamily hroom]
    refine and_congr_left fun _ => ⟨fun hfits _ => by omega, fun hfits => ?_⟩
    have hle := hfits hinterior
    omega
  · simp only [if_neg hinterior]
    constructor
    · rintro ⟨hw, -⟩
      obtain rfl := Except.ok.inj hw
      exact ⟨fun htrue => absurd htrue hinterior, [], [], ⟨rfl, rfl⟩,
        (walkAdds_nil hrun hroom).mpr rfl⟩
    · rintro ⟨-, cells, pages, ⟨rfl, rfl⟩, hadds⟩
      obtain rfl := (walkAdds_nil hrun hroom).mp hadds
      exact ⟨rfl, hrun⟩

theorem sqlitefsVisitCell_iff {i off : ℕ} {w w' : SqlitefsWalk}
    (hroom : w.pagesSeen ≤ data.pages) :
    sqlitefsVisitCell data hook w page number h.pageType i off = .ok w' ∧ w'.stopped = false
      ↔ ∃ cell, SqliteCell data page number h.pageType i off cell
        ∧ WalkAdds data hook w w' [cell] 0 := by
  rw [sqlitefsVisitCell, bind_eq_ok_iff]
  simp only [sqlitefsCellAt_eq_ok_iff]
  constructor
  · rintro ⟨⟨cell, hcell, hw⟩, hrunning⟩
    obtain rfl := Except.ok.inj hw
    exact ⟨cell, hcell, rfl, rfl, hroom, rfl, ⟨hrunning, trivial⟩, hrunning⟩
  · rintro ⟨cell, hcell, hadds⟩
    refine ⟨⟨cell, hcell, ?_⟩, hadds.running⟩
    cases w'
    have hdelivered := hadds.delivered
    have hseen := hadds.seen
    have hfamily := hadds.family
    have hrunning := hadds.running
    have hpasses := hadds.passes.1
    simp only [Nat.add_zero] at hdelivered hseen hfamily hrunning
    rw [hdelivered, hseen, hfamily, hrunning, hpasses]

theorem sqlitefsWalkCell_iff (hchild : WalksTrees data hook walkChild family Tree) {i : ℕ}
    {w w' : SqlitefsWalk} (hrun : w.stopped = false) (hfamily : w.family = family)
    (hroom : w.pagesSeen ≤ data.pages) :
    sqlitefsWalkCell data hook walkChild page number h i w = .ok w' ∧ w'.stopped = false
      ↔ ∃ seg, SqliteSegmentAt data Tree page number h i seg
        ∧ WalkAdds data hook w w' (seg.child ++ seg.own) seg.pages.length := by
  rw [sqlitefsWalkCell, bind_eq_ok_iff]
  constructor
  · rintro ⟨⟨off, hoff, hrest⟩, hrunning⟩
    obtain ⟨rfl, hbehind, hinside⟩ := sqlitefsCellOffset_eq_ok_iff.mp hoff
    obtain ⟨w₁, hleft, hrest⟩ := bind_eq_ok_iff.mp hrest
    have hrun₁ : w₁.stopped = false := by
      by_contra hstop
      rw [if_neg fun hand => hstop hand.1] at hrest
      obtain rfl := Except.ok.inj hrest
      exact hstop hrunning
    obtain ⟨hfits, child, pages, hbelow, hadds⟩ :=
      (sqlitefsWalkLeft_iff hchild hrun hfamily hroom).mp ⟨hleft, hrun₁⟩
    have hroom₁ : w₁.pagesSeen ≤ data.pages := hadds.seen ▸ hadds.room
    by_cases htable : h.pageType = SQLITEFS_PAGE_TABLE_INTERIOR
    · rw [if_neg fun hand => hand.2 htable] at hrest
      obtain rfl := Except.ok.inj hrest
      refine ⟨⟨child, pages, []⟩, ⟨⟨hbehind, hinside, hfits⟩, hbelow, ?_⟩, ?_⟩
      · rw [SqliteOwn, if_pos htable]
      · rw [List.append_nil]
        exact hadds
    · rw [if_pos ⟨hrun₁, htable⟩] at hrest
      obtain ⟨cell, hcell, hadds'⟩ := (sqlitefsVisitCell_iff hroom₁).mp ⟨hrest, hrunning⟩
      refine ⟨⟨child, pages, [cell]⟩, ⟨⟨hbehind, hinside, hfits⟩, hbelow, ?_⟩,
        walkAdds_append.mpr ⟨w₁, hadds, hadds'⟩⟩
      rw [SqliteOwn, if_neg htable]
      exact ⟨cell, rfl, hcell⟩
  · rintro ⟨⟨child, pages, own⟩, ⟨⟨hbehind, hinside, hfits⟩, hbelow, hown⟩, hadds⟩
    refine ⟨⟨_, sqlitefsCellOffset_eq_ok_iff.mpr ⟨rfl, hbehind, hinside⟩, ?_⟩, hadds.running⟩
    rw [bind_eq_ok_iff]
    by_cases htable : h.pageType = SQLITEFS_PAGE_TABLE_INTERIOR
    · rw [SqliteOwn, if_pos htable] at hown
      simp only at hown
      rw [hown, List.append_nil] at hadds
      have hleft := (sqlitefsWalkLeft_iff hchild hrun hfamily hroom).mpr
        ⟨hfits, child, pages, hbelow, hadds⟩
      exact ⟨w', hleft.1, if_neg fun hand => hand.2 htable⟩
    · rw [SqliteOwn, if_neg htable] at hown
      obtain ⟨cell, hown, hcell⟩ := hown
      simp only at hown
      rw [hown] at hadds
      obtain ⟨w₁, hadds₁, hadds⟩ := (walkAdds_append (n := 0)).mp hadds
      have hleft := (sqlitefsWalkLeft_iff hchild hrun hfamily hroom).mpr
        ⟨hfits, child, pages, hbelow, hadds₁⟩
      refine ⟨w₁, hleft.1, ?_⟩
      rw [if_pos ⟨hadds₁.running, htable⟩]
      exact ((sqlitefsVisitCell_iff (hadds₁.seen ▸ hadds₁.room)).mpr ⟨cell, hcell, hadds⟩).1

theorem sqlitefsWalkCells_of_stopped {n i : ℕ} {w : SqlitefsWalk} (hstop : w.stopped = true) :
    sqlitefsWalkCells data hook walkChild page number h n i w = .ok w := by
  cases n with
  | zero => rfl
  | succ n => rw [sqlitefsWalkCells, if_pos hstop]

/-- The loop delivers the segments from `i` on. -/
theorem sqlitefsWalkCells_iff (hchild : WalksTrees data hook walkChild family Tree) {n i : ℕ}
    {w w' : SqlitefsWalk} (hrun : w.stopped = false) (hfamily : w.family = family)
    (hroom : w.pagesSeen ≤ data.pages) :
    sqlitefsWalkCells data hook walkChild page number h n i w = .ok w' ∧ w'.stopped = false
      ↔ ∃ segs, segs.length = n ∧ SqliteSegments data Tree page number h i segs
        ∧ WalkAdds data hook w w' (segmentCells segs) (segmentPages segs).length := by
  induction n generalizing i w with
  | zero =>
    rw [sqlitefsWalkCells]
    constructor
    · rintro ⟨hw, -⟩
      obtain rfl := Except.ok.inj hw
      exact ⟨[], rfl, trivial, (walkAdds_nil hrun hroom).mpr rfl⟩
    · rintro ⟨segs, hlen, -, hadds⟩
      obtain rfl := List.length_eq_zero_iff.mp hlen
      obtain rfl := (walkAdds_nil hrun hroom).mp hadds
      exact ⟨rfl, hrun⟩
  | succ n ih =>
    rw [sqlitefsWalkCells, if_neg (by rw [hrun]; decide), bind_eq_ok_iff]
    constructor
    · rintro ⟨⟨w₁, hcell, hrest⟩, hrunning⟩
      have hrun₁ : w₁.stopped = false := by
        by_contra hstop
        rw [sqlitefsWalkCells_of_stopped (Bool.not_eq_false _ ▸ hstop)] at hrest
        obtain rfl := Except.ok.inj hrest
        exact hstop hrunning
      obtain ⟨seg, hseg, hadds⟩ := (sqlitefsWalkCell_iff hchild hrun hfamily hroom).mp
        ⟨hcell, hrun₁⟩
      obtain ⟨segs, hlen, hsegs, hadds'⟩ := (ih hrun₁ (hadds.family.trans hfamily)
        (hadds.seen ▸ hadds.room)).mp ⟨hrest, hrunning⟩
      refine ⟨seg :: segs, congrArg (· + 1) hlen, ⟨hseg, hsegs⟩, ?_⟩
      rw [segmentCells, segmentPages, List.flatMap_cons, List.flatMap_cons, List.length_append]
      exact walkAdds_append.mpr ⟨w₁, hadds, hadds'⟩
    · rintro ⟨segs, hlen, hsegs, hadds⟩
      cases segs with
      | nil => cases hlen
      | cons seg segs =>
        rw [segmentCells, segmentPages, List.flatMap_cons, List.flatMap_cons,
          List.length_append] at hadds
        obtain ⟨w₁, hadds₁, hadds'⟩ := walkAdds_append.mp hadds
        obtain ⟨hcell, hrun₁⟩ := (sqlitefsWalkCell_iff hchild hrun hfamily hroom).mpr
          ⟨seg, hsegs.1, hadds₁⟩
        obtain ⟨hrest, hrunning⟩ := (ih hrun₁ (hadds₁.family.trans hfamily)
          (hadds₁.seen ▸ hadds₁.room)).mpr
            ⟨segs, Nat.succ.inj hlen, hsegs.2, hadds'⟩
        exact ⟨⟨w₁, hcell, hrest⟩, hrunning⟩

theorem walkAdds_succ {w w' : SqlitefsWalk} {cells : List SqlitefsCell} {n : ℕ} :
    WalkAdds data hook w w' cells (n + 1)
      ↔ WalkAdds data hook { w with pagesSeen := w.pagesSeen + 1 } w' cells n := by
  constructor
  · intro h
    have hseen := h.seen
    have hroom := h.room
    exact ⟨h.delivered, by simp only; omega, by simp only; omega, h.family, h.passes, h.running⟩
  · intro h
    have hseen := h.seen
    have hroom := h.room
    simp only at hseen hroom
    exact ⟨h.delivered, by omega, by omega, h.family, h.passes, h.running⟩

theorem sqlitefsWalkRight_iff (hchild : WalksTrees data hook walkChild family Tree) {right : ℕ}
    {w w' : SqlitefsWalk} (hrun : w.stopped = false) (hfamily : w.family = family)
    (hroom : w.pagesSeen ≤ data.pages) :
    ((if sqlitefsInterior h.pageType = true ∧ w.stopped = false then walkChild w right
        else .ok w) = .ok w' ∧ w'.stopped = false)
      ↔ ∃ last pages, SqliteBelow Tree h right last pages
        ∧ WalkAdds data hook w w' last pages.length := by
  unfold SqliteBelow
  by_cases hinterior : sqlitefsInterior h.pageType = true
  · rw [if_pos ⟨hinterior, hrun⟩, hchild w w' _ hrun hfamily hroom]
    simp only [if_pos hinterior]
  · rw [if_neg fun hand => hinterior hand.1]
    simp only [if_neg hinterior]
    constructor
    · rintro ⟨hw, -⟩
      obtain rfl := Except.ok.inj hw
      exact ⟨[], [], ⟨rfl, rfl⟩, (walkAdds_nil hrun hroom).mpr rfl⟩
    · rintro ⟨cells, pages, ⟨rfl, rfl⟩, hadds⟩
      obtain rfl := (walkAdds_nil hrun hroom).mp hadds
      exact ⟨rfl, hrun⟩

theorem sqlitefsFamily_ne_zero (pageType : ℕ) : sqlitefsFamily pageType ≠ 0 := by
  rw [sqlitefsFamily]
  split_ifs <;> decide

/-- The walk of a page delivers the tree below it, and where there is a tree that fits, it does so. -/
theorem sqlitefsWalkPage_iff {levels : ℕ} {w w' : SqlitefsWalk} (hrun : w.stopped = false) :
    sqlitefsWalkPage data hook levels w number = .ok w' ∧ w'.stopped = false
      ↔ ∃ family cells pages, (w.family = 0 ∨ w.family = family)
        ∧ SqliteTree data family levels number cells pages
        ∧ WalkAdds data hook { w with family := family } w' cells pages.length := by
  induction levels generalizing w w' number with
  | zero =>
    rw [sqlitefsWalkPage, if_neg (by rw [hrun]; decide)]
    constructor
    · rintro ⟨hw, -⟩
      cases hw
    · rintro ⟨family, cells, pages, -, htree, -⟩
      cases htree
  | succ levels ih =>
    -- the pages below keep to the family that this page has set
    have hchild : ∀ family, family ≠ 0 → WalksTrees data hook (sqlitefsWalkPage data hook levels)
        family (SqliteTree data family levels) := by
      intro family hne w w' number hrun hfamily _
      rw [ih hrun]
      constructor
      · rintro ⟨family', cells, pages, hfamily', htree, hadds⟩
        have hsame : family' = family := by
          rcases hfamily' with hzero | heq
          · exact absurd (hfamily.symm.trans hzero) hne
          · exact heq.symm.trans hfamily
        subst hsame
        subst hfamily
        exact ⟨cells, pages, htree, hadds⟩
      · rintro ⟨cells, pages, htree, hadds⟩
        subst hfamily
        exact ⟨w.family, cells, pages, .inr rfl, htree, hadds⟩
    rw [sqlitefsWalkPage, if_neg (by rw [hrun]; decide), refuseIf_bind_eq_ok_iff, bind_eq_ok_iff]
    constructor
    · rintro ⟨⟨hseen, ⟨page, h⟩, hopen, hrest⟩, hrunning⟩
      obtain ⟨hpage, hfamily⟩ := sqlitefsOpenPage_eq_ok_iff.mp hopen
      obtain ⟨w₁, hcells, hright⟩ := bind_eq_ok_iff.mp hrest
      have hchild := hchild _ (sqlitefsFamily_ne_zero h.pageType)
      have hrun₀ : SqlitefsWalk.stopped { w with
          pagesSeen := w.pagesSeen + 1, family := sqlitefsFamily h.pageType } = false := hrun
      have hrun₁ : w₁.stopped = false := by
        by_contra hstop
        rw [if_neg fun hand => hstop hand.2] at hright
        obtain rfl := Except.ok.inj hright
        exact hstop hrunning
      obtain ⟨segs, hlen, hsegs, hadds⟩ := (sqlitefsWalkCells_iff hchild hrun₀ rfl
        (by simp only; omega)).mp ⟨hcells, hrun₁⟩
      obtain ⟨last, lastPages, hlast, hadds'⟩ := (sqlitefsWalkRight_iff hchild hrun₁ hadds.family
        (hadds.seen ▸ hadds.room)).mp ⟨hright, hrunning⟩
      refine ⟨_, _, _, hfamily, ⟨page, h, segs, last, lastPages, rfl, hpage, hlen, hsegs, hlast, rfl,
        rfl⟩, ?_⟩
      rw [List.length_cons, List.length_append]
      exact walkAdds_succ.mpr (walkAdds_append.mpr ⟨w₁, hadds, hadds'⟩)
    · rintro ⟨family, cells, pages, hfamily, ⟨page, h, segs, last, lastPages, rfl, hpage, hlen, hsegs,
        hlast, rfl, rfl⟩, hadds⟩
      rw [List.length_cons, List.length_append] at hadds
      have hroom := hadds.room
      obtain ⟨w₁, hadds₁, hadds⟩ := walkAdds_append.mp (walkAdds_succ.mp hadds)
      have hchild := hchild _ (sqlitefsFamily_ne_zero h.pageType)
      have hrun₀ : SqlitefsWalk.stopped { w with
          pagesSeen := w.pagesSeen + 1, family := sqlitefsFamily h.pageType } = false := hrun
      have hcells := (sqlitefsWalkCells_iff hchild hrun₀ rfl (by simp only at hroom ⊢; omega)).mpr
        ⟨segs, hlen, hsegs, hadds₁⟩
      have hright := (sqlitefsWalkRight_iff hchild hadds₁.running hadds₁.family
        (hadds₁.seen ▸ hadds₁.room)).mpr ⟨last, lastPages, hlast, hadds⟩
      refine ⟨⟨by simp only at hroom; omega, (page, h),
        sqlitefsOpenPage_eq_ok_iff.mpr ⟨hpage, hfamily⟩, ?_⟩, hadds.running⟩
      exact bind_eq_ok_iff.mpr ⟨w₁, hcells.1, hright.1⟩

end Walk

end FsRover
