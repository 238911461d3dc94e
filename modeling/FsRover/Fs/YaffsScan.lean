import FsRover.Fs.Yaffs
import FsRover.Lib.FileLog

/-!
# The records of a YAFFS image

A scan keeps, for every object, the newest header and the newest copy of every chunk, in whatever
order the pages are taken.

## Main definitions

* `FsRover.YaffsRecord`, `FsRover.yaffsRecordAt` : what a page says.
* `FsRover.YaffsTracks` : an object holds the newest of its records.

## Main results

* `FsRover.yaffsScan_tracked` : so it does after a scan.
* `FsRover.yaffsMount_spec` : and after the tree is checked.
-/

namespace FsRover

open Guards FileLog

/-! ### The table of objects -/

/-- The object with this id, blank if there is none. -/
def YaffsData.objectAt (data : YaffsData) (id : ℕ) : YaffsObject :=
  (data.findObject id).getD { id := id }

theorem findObject_modifyObject {f : YaffsObject → YaffsObject} (hf : ∀ o, (f o).id = o.id)
    (data : YaffsData) (id id' : ℕ) : (data.modifyObject id f).findObject id'
      = if id' = id then (data.findObject id').map f else data.findObject id' := by
  simp only [YaffsData.findObject, YaffsData.modifyObject]
  by_cases hbucket : id' % YAFFS_OBJECT_BUCKETS = id % YAFFS_OBJECT_BUCKETS
  · rw [hbucket, Function.update_self, List.find?_map]
    have hid : ((fun o : YaffsObject => decide (o.id = id'))
        ∘ fun o => if o.id = id then f o else o) = fun o => decide (o.id = id') := by
      funext o
      by_cases ho : o.id = id <;> simp [ho, hf]
    rw [hid]
    cases hfind : (data.objects (id % YAFFS_OBJECT_BUCKETS)).find? fun o => decide (o.id = id') with
    | none => simp
    | some o =>
      have ho : o.id = id' := by simpa using List.find?_some hfind
      by_cases heq : id' = id <;> simp [ho, heq]
  · have hne : id' ≠ id := fun h => hbucket (h ▸ rfl)
    rw [Function.update_of_ne hbucket, if_neg hne]

theorem findObject_getObject (data : YaffsData) (id id' : ℕ) :
    (data.getObject id).findObject id'
      = if id' = id then some (data.objectAt id') else data.findObject id' := by
  rw [YaffsData.getObject, YaffsData.objectAt]
  cases hfind : data.findObject id with
  | some o =>
    by_cases heq : id' = id
    · simp [heq, hfind]
    · simp [heq]
  | none =>
    simp only [YaffsData.findObject] at hfind ⊢
    by_cases hbucket : id' % YAFFS_OBJECT_BUCKETS = id % YAFFS_OBJECT_BUCKETS
    · rw [hbucket, Function.update_self, List.find?_cons]
      by_cases heq : id' = id
      · subst heq
        simp [hfind]
      · simp [heq, Ne.symm heq]
    · have hne : id' ≠ id := fun h => hbucket (h ▸ rfl)
      rw [Function.update_of_ne hbucket, if_neg hne]

theorem objectAt_getObject (data : YaffsData) (id id' : ℕ) :
    (data.getObject id).objectAt id' = data.objectAt id' := by
  rw [YaffsData.objectAt, findObject_getObject]
  by_cases heq : id' = id
  · rw [if_pos heq, Option.getD_some]
  · rw [if_neg heq, YaffsData.objectAt]

theorem objectAt_modify_get {f : YaffsObject → YaffsObject} (hf : ∀ o, (f o).id = o.id)
    (data : YaffsData) (id id' : ℕ) : ((data.getObject id).modifyObject id f).objectAt id'
      = if id' = id then f (data.objectAt id') else data.objectAt id' := by
  rw [YaffsData.objectAt, findObject_modifyObject hf, findObject_getObject]
  by_cases heq : id' = id
  · simp [heq]
  · simp [heq, YaffsData.objectAt]

/-! ### Records -/

/-- A header with its place in the log. -/
structure YaffsHeaderRecord where
  header : YaffsHeader
  sequence : ℕ
  page : ℕ
  serial : ℕ

/-- What a page says about an object. -/
inductive YaffsRecord
  | data (object : ℕ) (chunk : YaffsChunk)
  | header (object : ℕ) (header : YaffsHeaderRecord)

/-- The record of a page, if it has one that is accepted. -/
def yaffsRecordAt (g : YaffsGeometry) (bytes : Buf) (page : ℕ) : Option YaffsRecord :=
  match yaffsParseTags g (bytes.from (page * g.recordSize + g.tagsOffset)) with
  | none => none
  | some tags =>
    if yaffsSkips tags then none
    else if tags.chunk ≠ 0 then
      some (.data tags.object ⟨page, tags.chunk, tags.bytes, tags.sequence, tags.serial⟩)
    else
      match yaffsParseHeader g (bytes.from (page * g.recordSize)) tags.object with
      | none => none
      | some header =>
        if yaffsHeaderMatchesTags tags header then
          some (.header tags.object ⟨header, tags.sequence, page, tags.serial⟩)
        else none

def YaffsChunk.key (c : YaffsChunk) : ℕ ×ₗ ℕ := toLex (c.sequence, c.page)
def YaffsHeaderRecord.key (h : YaffsHeaderRecord) : ℕ ×ₗ ℕ := toLex (h.sequence, h.page)

/-- The copies of a chunk of an object among the records. -/
def YaffsRecord.chunk? (id logical : ℕ) : YaffsRecord → Option YaffsChunk
  | .data object chunk => if object = id ∧ chunk.logical = logical then some chunk else none
  | .header _ _ => none

/-- The headers of an object among the records. -/
def YaffsRecord.header? (id : ℕ) : YaffsRecord → Option YaffsHeaderRecord
  | .data _ _ => none
  | .header object h => if object = id then some h else none

def yaffsChunksOf (id logical : ℕ) (records : List YaffsRecord) : List YaffsChunk :=
  records.filterMap (YaffsRecord.chunk? id logical)

def yaffsHeadersOf (id : ℕ) (records : List YaffsRecord) : List YaffsHeaderRecord :=
  records.filterMap (YaffsRecord.header? id)

/-- The object takes its type, size and place in the log from this header, if there is one. -/
def YaffsHeld (o : YaffsObject) : Option YaffsHeaderRecord → Prop
  | none => o.valid = false
  | some h => o.valid = true ∧ o.type = h.header.type ∧ o.size = h.header.size
    ∧ o.headerSequence = h.sequence ∧ o.headerPage = h.page

/-- The object holds the newest of the records of the object `id`. -/
structure YaffsTracks (id : ℕ) (records : List YaffsRecord) (o : YaffsObject) : Prop where
  sameId : o.id = id
  sorted : o.chunks.Pairwise fun c c' => c.logical < c'.logical
  chunks : ∀ c, c ∈ o.chunks ↔ newest YaffsChunk.key (yaffsChunksOf id c.logical records) = some c
  header : YaffsHeld o (newest YaffsHeaderRecord.key (yaffsHeadersOf id records))

theorem yaffsTracks_nil (id : ℕ) : YaffsTracks id [] { id := id } :=
  ⟨rfl, .nil, by simp [yaffsChunksOf], rfl⟩

variable {g : YaffsGeometry}

/-- In version 2 the order is that of sequence numbers and pages. -/
theorem yaffsNewer_iff (hversion : g.version = 2) {s p r s' p' r' : ℕ} :
    yaffsNewer g s p r s' p' r' = true ↔ toLex (s, p) < toLex (s', p') := by
  rw [yaffsNewer, if_neg (by omega), Prod.Lex.toLex_lt_toLex]
  by_cases hs : s' = s
  · simp [hs]
  · simp [hs, Ne.symm hs]

theorem mem_yaffsAddChunk {new : YaffsChunk} {chunks : List YaffsChunk} {c : YaffsChunk}
    (hsorted : chunks.Pairwise fun c c' => c.logical < c'.logical) :
    c ∈ yaffsAddChunk g new chunks ↔ (c ∈ chunks ∧ c.logical ≠ new.logical)
      ∨ (c = new ∧ ∀ old ∈ chunks, old.logical = new.logical → yaffsNewer g old.sequence old.page
        old.serial new.sequence new.page new.serial = true)
      ∨ (c ∈ chunks ∧ c.logical = new.logical ∧ yaffsNewer g c.sequence c.page c.serial
        new.sequence new.page new.serial = false) := by
  induction chunks with
  | nil => simp [yaffsAddChunk]
  | cons old chunks ih =>
    obtain ⟨hold, hrest⟩ := List.pairwise_cons.mp hsorted
    rw [yaffsAddChunk]
    by_cases hlt : old.logical < new.logical
    · rw [if_pos hlt, List.mem_cons, ih hrest]
      have hne : old.logical ≠ new.logical := hlt.ne
      simp only [List.mem_cons, forall_eq_or_imp, hne, false_imp_iff, true_and]
      constructor
      · rintro (rfl | h | h | h)
        · exact .inl ⟨.inl rfl, hne⟩
        · exact .inl ⟨.inr h.1, h.2⟩
        · exact .inr (.inl h)
        · exact .inr (.inr ⟨.inr h.1, h.2⟩)
      · rintro (⟨rfl | h, hc⟩ | h | ⟨rfl | h, hc⟩)
        · exact .inl rfl
        · exact .inr (.inl ⟨h, hc⟩)
        · exact .inr (.inr (.inl h))
        · exact absurd hc.1 hne
        · exact .inr (.inr (.inr ⟨h, hc⟩))
    · rw [if_neg hlt]
      by_cases heq : old.logical = new.logical
      · -- no other chunk has this number
        have hothers : ∀ c ∈ chunks, c.logical ≠ new.logical := fun c hc h => by
          have := hold c hc
          omega
        by_cases hnewer : yaffsNewer g old.sequence old.page old.serial new.sequence new.page
            new.serial = true
        · rw [if_pos heq, if_pos hnewer]
          simp only [List.mem_cons, forall_eq_or_imp, heq, hnewer, forall_const, true_and]
          constructor
          · rintro (rfl | h)
            · exact .inr (.inl ⟨rfl, fun o ho h => absurd h (hothers o ho)⟩)
            · exact .inl ⟨.inr h, hothers c h⟩
          · rintro (⟨rfl | h, hc⟩ | h | ⟨rfl | h, hc, hn⟩)
            · exact absurd heq hc
            · exact .inr h
            · exact .inl h.1
            · rw [hnewer] at hn
              cases hn
            · exact absurd hc (hothers c h)
        · rw [if_pos heq, if_neg hnewer]
          simp only [List.mem_cons, forall_eq_or_imp, heq, hnewer, forall_const, false_and,
            and_false, false_or, Bool.false_eq_true]
          constructor
          · rintro (rfl | h)
            · exact .inr ⟨.inl rfl, heq, by simpa using hnewer⟩
            · exact .inl ⟨.inr h, hothers c h⟩
          · rintro (⟨rfl | h, hc⟩ | ⟨h, -⟩)
            · exact .inl rfl
            · exact .inr h
            · exact h
      · -- all chunks come behind
        have hall : ∀ c ∈ old :: chunks, c.logical ≠ new.logical := by
          intro c hc
          rcases List.mem_cons.mp hc with rfl | hc
          · exact heq
          · have := hold c hc
            omega
        rw [if_neg heq]
        constructor
        · intro h
          rcases List.mem_cons.mp h with rfl | h
          · exact .inr (.inl ⟨rfl, fun o ho h => absurd h (hall o ho)⟩)
          · exact .inl ⟨h, hall c h⟩
        · rintro (h | h | h)
          · exact List.mem_cons_of_mem _ h.1
          · exact h.1 ▸ List.mem_cons_self
          · exact List.mem_cons_of_mem _ h.1

theorem mem_yaffsAddChunk_le {new c : YaffsChunk} {chunks : List YaffsChunk}
    (h : c ∈ yaffsAddChunk g new chunks) : c = new ∨ c ∈ chunks := by
  induction chunks with
  | nil => exact .inl (List.mem_singleton.mp h)
  | cons old chunks ih =>
    rw [yaffsAddChunk] at h
    split_ifs at h
    · rcases List.mem_cons.mp h with rfl | h
      · exact .inr List.mem_cons_self
      · exact (ih h).imp id (List.mem_cons_of_mem _)
    · rcases List.mem_cons.mp h with rfl | h
      · exact .inl rfl
      · exact .inr (List.mem_cons_of_mem _ h)
    · exact .inr h
    · exact (List.mem_cons.mp h).imp id id

theorem yaffsAddChunk_sorted {new : YaffsChunk} {chunks : List YaffsChunk}
    (hsorted : chunks.Pairwise fun c c' => c.logical < c'.logical) :
    (yaffsAddChunk g new chunks).Pairwise fun c c' => c.logical < c'.logical := by
  induction chunks with
  | nil => exact List.pairwise_singleton _ _
  | cons old chunks ih =>
    obtain ⟨hold, hrest⟩ := List.pairwise_cons.mp hsorted
    rw [yaffsAddChunk]
    split_ifs with hlt heq hnewer
    · refine List.pairwise_cons.mpr ⟨fun c hc => ?_, ih hrest⟩
      rcases mem_yaffsAddChunk_le hc with rfl | hc
      · exact hlt
      · exact hold c hc
    · exact List.pairwise_cons.mpr ⟨fun c hc => heq ▸ hold c hc, hrest⟩
    · exact hsorted
    · refine List.pairwise_cons.mpr ⟨fun c hc => ?_, hsorted⟩
      rcases List.mem_cons.mp hc with rfl | hc
      · omega
      · have := hold c hc
        omega

/-! ### The scan -/

variable {records : List YaffsRecord} {id : ℕ} {o : YaffsObject}

/-- The record of an object is added to the ones seen so far. -/
theorem YaffsTracks.other {record : YaffsRecord} (h : YaffsTracks id records o)
    (hchunk : ∀ logical, record.chunk? id logical = none) (hheader : record.header? id = none) :
    YaffsTracks id (records ++ [record]) o := by
  have hchunks : ∀ logical, yaffsChunksOf id logical (records ++ [record])
      = yaffsChunksOf id logical records := fun logical => by
    simp [yaffsChunksOf, hchunk]
  have hheaders : yaffsHeadersOf id (records ++ [record]) = yaffsHeadersOf id records := by
    simp [yaffsHeadersOf, hheader]
  refine ⟨h.sameId, h.sorted, fun c => ?_, ?_⟩
  · rw [hchunks]
    exact h.chunks c
  · rw [hheaders]
    exact h.header

theorem YaffsTracks.addChunk (hversion : g.version = 2) (h : YaffsTracks id records o)
    (new : YaffsChunk) : YaffsTracks id (records ++ [.data id new])
      { o with chunks := yaffsAddChunk g new o.chunks } := by
  have hchunks : ∀ logical, yaffsChunksOf id logical (records ++ [.data id new])
      = yaffsChunksOf id logical records ++ if new.logical = logical then [new] else [] := by
    intro logical
    by_cases hl : new.logical = logical <;> simp [yaffsChunksOf, YaffsRecord.chunk?, hl]
  have hheaders : yaffsHeadersOf id (records ++ [.data id new]) = yaffsHeadersOf id records := by
    simp [yaffsHeadersOf, YaffsRecord.header?]
  refine ⟨h.sameId, yaffsAddChunk_sorted h.sorted, fun c => ?_, ?_⟩
  · simp only
    rw [hchunks, mem_yaffsAddChunk h.sorted]
    by_cases hc : c.logical = new.logical
    · have hsame : yaffsChunksOf id c.logical records = yaffsChunksOf id new.logical records := by
        rw [hc]
      rw [if_pos hc.symm, newest_concat, hsame]
      -- the copy of the chunk so far
      have hheld : ∀ old : YaffsChunk, old.logical = new.logical → (old ∈ o.chunks
          ↔ newest YaffsChunk.key (yaffsChunksOf id new.logical records) = some old) := by
        intro old hold
        rw [← hold]
        exact h.chunks old
      cases hnew : newest YaffsChunk.key (yaffsChunksOf id new.logical records) with
      | none =>
        have hnone : ∀ old : YaffsChunk, old.logical = new.logical → old ∉ o.chunks := by
          intro old hold hmem
          rw [hheld old hold, hnew] at hmem
          cases hmem
        simp only [keep, Option.some.injEq]
        constructor
        · rintro (⟨-, hne⟩ | ⟨rfl, -⟩ | ⟨hmem, heq, -⟩)
          · exact absurd hc hne
          · rfl
          · exact absurd hmem (hnone c heq)
        · rintro rfl
          exact .inr (.inl ⟨rfl, fun old hmem heq => absurd hmem (hnone old heq)⟩)
      | some b =>
        have hb : b.logical = new.logical := by
          have hmem := ((newest_spec _).2 b hnew).1
          simp only [yaffsChunksOf, List.mem_filterMap] at hmem
          obtain ⟨record, -, hrecord⟩ := hmem
          cases record with
          | header object header => cases hrecord
          | data object chunk =>
            simp only [YaffsRecord.chunk?] at hrecord
            split_ifs at hrecord with hmatch
            exact Option.some.inj hrecord ▸ hmatch.2
        have honly : ∀ old : YaffsChunk, old.logical = new.logical → (old ∈ o.chunks ↔ b = old) := by
          intro old hold
          rw [hheld old hold, hnew, Option.some.injEq]
        have hkey : yaffsNewer g b.sequence b.page b.serial new.sequence new.page new.serial = true
            ↔ b.key < new.key := yaffsNewer_iff hversion
        rw [keep]
        constructor
        · rintro (⟨-, hne⟩ | ⟨rfl, hall⟩ | ⟨hmem, heq, hold⟩)
          · exact absurd hc hne
          · rw [if_pos (hkey.mp (hall b ((honly b hb).mpr rfl) hb))]
          · obtain rfl := (honly c heq).mp hmem
            rw [if_neg fun hlt => by rw [hkey.mpr hlt] at hold; cases hold]
        · intro hkeep
          split_ifs at hkeep with hlt
          · obtain rfl := Option.some.inj hkeep
            refine .inr (.inl ⟨rfl, fun old hmem heq => ?_⟩)
            obtain rfl := (honly old heq).mp hmem
            exact hkey.mpr hlt
          · obtain rfl := Option.some.inj hkeep
            refine .inr (.inr ⟨(honly b hb).mpr rfl, hb, ?_⟩)
            simpa using fun h => hlt (hkey.mp h)
    · rw [if_neg (Ne.symm hc), List.append_nil, ← h.chunks]
      constructor
      · rintro (h | ⟨rfl, -⟩ | ⟨-, heq, -⟩)
        · exact h.1
        · exact absurd rfl hc
        · exact absurd heq hc
      · exact fun hmem => .inl ⟨hmem, hc⟩
  · rw [hheaders]
    have hheld := h.header
    cases hnew : newest YaffsHeaderRecord.key (yaffsHeadersOf id records) <;> rw [hnew] at hheld <;>
      exact hheld

theorem YaffsTracks.setHeader (hversion : g.version = 2) (h : YaffsTracks id records o)
    (tags : YaffsTags) (header : YaffsHeader) (page : ℕ) :
    YaffsTracks id (records ++ [.header id ⟨header, tags.sequence, page, tags.serial⟩])
      (yaffsSetHeader g tags header page o) := by
  have hheaders : yaffsHeadersOf id
      (records ++ [.header id ⟨header, tags.sequence, page, tags.serial⟩])
        = yaffsHeadersOf id records ++ [⟨header, tags.sequence, page, tags.serial⟩] := by
    simp [yaffsHeadersOf, YaffsRecord.header?]
  have hchunks : ∀ logical, yaffsChunksOf id logical
      (records ++ [.header id ⟨header, tags.sequence, page, tags.serial⟩])
        = yaffsChunksOf id logical records := fun logical => by
    simp [yaffsChunksOf, YaffsRecord.chunk?]
  have hheld := h.header
  have hsame : (yaffsSetHeader g tags header page o).id = o.id
      ∧ (yaffsSetHeader g tags header page o).chunks = o.chunks := by
    rw [yaffsSetHeader]
    split_ifs <;> exact ⟨rfl, rfl⟩
  refine ⟨hsame.1.trans h.sameId, ?_, ?_, ?_⟩
  · rw [hsame.2]
    exact h.sorted
  · intro c
    rw [hsame.2, hchunks]
    exact h.chunks c
  · rw [hheaders, newest_concat, yaffsSetHeader]
    cases hnew : newest YaffsHeaderRecord.key (yaffsHeadersOf id records) with
    | none =>
      rw [hnew] at hheld
      have hvalid : o.valid = false := hheld
      rw [if_neg (by simp [hvalid])]
      exact ⟨rfl, rfl, rfl, rfl, rfl⟩
    | some b =>
      rw [hnew] at hheld
      obtain ⟨hvalid, -, -, hsequence, hpage⟩ := hheld
      have hkey : yaffsNewer g o.headerSequence o.headerPage o.headerSerial tags.sequence page
          tags.serial = true ↔ b.key
            < YaffsHeaderRecord.key ⟨header, tags.sequence, page, tags.serial⟩ := by
        rw [hsequence, hpage]
        exact yaffsNewer_iff hversion
      rw [keep]
      by_cases hlt : b.key < YaffsHeaderRecord.key ⟨header, tags.sequence, page, tags.serial⟩
      · rw [if_pos hlt, if_neg fun hold => by rw [hkey.mpr hlt] at hold; cases hold.2]
        exact ⟨rfl, rfl, rfl, rfl, rfl⟩
      · have hold : yaffsNewer g o.headerSequence o.headerPage o.headerSerial tags.sequence page
            tags.serial = false := by
          simpa using fun h => hlt (hkey.mp h)
        rw [if_neg hlt, if_pos ⟨hvalid, hold⟩]
        have hheld := h.header
        rwa [hnew] at hheld

/-- What stays the same while a file system is mounted. -/
structure YaffsData.SameMedium (data data' : YaffsData) : Prop where
  disk : data'.disk = data.disk
  diskSize : data'.diskSize = data.diskSize
  pages : data'.pages = data.pages
  geometry : data'.geometry = data.geometry

theorem YaffsData.SameMedium.refl (data : YaffsData) : data.SameMedium data := ⟨rfl, rfl, rfl, rfl⟩

theorem YaffsData.SameMedium.trans {a b c : YaffsData} (h : a.SameMedium b) (h' : b.SameMedium c) :
    a.SameMedium c :=
  ⟨h'.disk.trans h.disk, h'.diskSize.trans h.diskSize, h'.pages.trans h.pages,
    h'.geometry.trans h.geometry⟩

theorem sameMedium_getObject (data : YaffsData) (id : ℕ) : data.SameMedium (data.getObject id) := by
  rw [YaffsData.getObject]
  split <;> exact ⟨rfl, rfl, rfl, rfl⟩

theorem sameMedium_modifyObject (data : YaffsData) (id : ℕ) (f : YaffsObject → YaffsObject) :
    data.SameMedium (data.modifyObject id f) := ⟨rfl, rfl, rfl, rfl⟩

/-- Every object holds the newest of its records. -/
def YaffsTracked (records : List YaffsRecord) (data : YaffsData) : Prop :=
  ∀ id, YaffsTracks id records (data.objectAt id)

variable {data data' : YaffsData}

theorem yaffsDiskRead_eq_ok {disk : SizedDisk} {diskSize offset length : ℕ} {p : Buf}
    (h : yaffsDiskRead disk diskSize offset length = .ok p) : p = disk.bytes.from offset := by
  rw [yaffsDiskRead, refuseIf_bind_eq_ok_iff] at h
  exact SizedDisk.read_eq_ok h.2

theorem YaffsTracked.getObject (h : YaffsTracked records data) (id : ℕ) :
    YaffsTracked records (data.getObject id) := fun id' => by
  rw [objectAt_getObject]
  exact h id'

theorem YaffsTracked.modify {f : YaffsObject → YaffsObject} {record : YaffsRecord} {object : ℕ}
    (h : YaffsTracked records data) (hf : ∀ o, (f o).id = o.id)
    (hchunk : ∀ id logical, id ≠ object → record.chunk? id logical = none)
    (hheader : ∀ id, id ≠ object → record.header? id = none)
    (hself : YaffsTracks object (records ++ [record]) (f (data.objectAt object))) :
    YaffsTracked (records ++ [record]) ((data.getObject object).modifyObject object f) := by
  intro id
  rw [objectAt_modify_get hf]
  by_cases heq : id = object
  · rw [if_pos heq, heq]
    exact hself
  · rw [if_neg heq]
    exact (h id).other (fun logical => hchunk id logical heq) (hheader id heq)

theorem yaffsScanPage_tracked {page : ℕ} (hversion : data.geometry.version = 2)
    (h : yaffsScanPage data page = .ok data') (htracked : YaffsTracked records data) :
    data.SameMedium data' ∧ YaffsTracked
      (records ++ (yaffsRecordAt data.geometry data.disk.bytes page).toList) data' := by
  rw [yaffsScanPage] at h
  obtain ⟨raw, hraw, h⟩ := bind_eq_ok_iff.mp h
  obtain rfl := yaffsDiskRead_eq_ok hraw
  rw [yaffsRecordAt]
  have hnothing : YaffsTracked (records ++ (none : Option YaffsRecord).toList) data := by
    simpa using htracked
  cases htags : yaffsParseTags data.geometry (data.disk.bytes.from
      (page * data.geometry.recordSize + data.geometry.tagsOffset)) with
  | none =>
    rw [htags] at h
    obtain rfl := Except.ok.inj h
    exact ⟨.refl data, hnothing⟩
  | some tags =>
    simp only [htags] at h ⊢
    by_cases hskip : yaffsSkips tags = true
    · rw [if_pos hskip] at h ⊢
      obtain rfl := Except.ok.inj h
      exact ⟨.refl data, hnothing⟩
    · rw [if_neg hskip] at h ⊢
      by_cases hchunk : tags.chunk ≠ 0
      · rw [if_pos hchunk] at h ⊢
        obtain rfl := Except.ok.inj h
        refine ⟨(sameMedium_getObject data tags.object).trans (sameMedium_modifyObject _ _ _), ?_⟩
        exact htracked.modify (fun _ => rfl)
          (fun id logical hne => by simp [YaffsRecord.chunk?, Ne.symm hne]) (fun _ _ => rfl)
          ((htracked tags.object).addChunk hversion _)
      · rw [if_neg hchunk] at h ⊢
        have hget := sameMedium_getObject data tags.object
        obtain ⟨raw', hraw', h⟩ := bind_eq_ok_iff.mp h
        obtain rfl := yaffsDiskRead_eq_ok hraw'
        simp only [hget.disk] at h
        cases hheader : yaffsParseHeader data.geometry
            (data.disk.bytes.from (page * data.geometry.recordSize)) tags.object with
        | none =>
          simp only [hheader] at h ⊢
          obtain rfl := Except.ok.inj h
          exact ⟨hget, fun id => by simpa using htracked.getObject tags.object id⟩
        | some header =>
          simp only [hheader] at h ⊢
          by_cases hmatch : yaffsHeaderMatchesTags tags header = true
          · rw [if_pos hmatch] at h ⊢
            obtain rfl := Except.ok.inj h
            have hset : ∀ o, (yaffsSetHeader data.geometry tags header page o).id = o.id := fun o => by
              rw [yaffsSetHeader]
              split_ifs <;> rfl
            refine ⟨hget.trans ⟨rfl, rfl, rfl, rfl⟩, ?_⟩
            exact htracked.modify hset (fun _ _ _ => rfl)
              (fun id hne => by simp [YaffsRecord.header?, Ne.symm hne])
              ((htracked tags.object).setHeader hversion tags header page)
          · rw [if_neg hmatch] at h ⊢
            obtain rfl := Except.ok.inj h
            exact ⟨hget, fun id => by simpa using htracked.getObject tags.object id⟩

theorem yaffsScanPage_geometry {page : ℕ} (h : yaffsScanPage data page = .ok data') :
    data'.geometry = data.geometry := by
  have hget := (sameMedium_getObject data · |>.geometry)
  rw [yaffsScanPage] at h
  obtain ⟨raw, -, h⟩ := bind_eq_ok_iff.mp h
  cases htags : yaffsParseTags data.geometry raw with
  | none =>
    simp only [htags] at h
    exact Except.ok.inj h ▸ rfl
  | some tags =>
    simp only [htags] at h
    by_cases hskip : yaffsSkips tags = true
    · rw [if_pos hskip] at h
      exact Except.ok.inj h ▸ rfl
    · rw [if_neg hskip] at h
      by_cases hchunk : tags.chunk ≠ 0
      · rw [if_pos hchunk] at h
        exact Except.ok.inj h ▸ hget tags.object
      · rw [if_neg hchunk] at h
        obtain ⟨raw', -, h⟩ := bind_eq_ok_iff.mp h
        cases hheader : yaffsParseHeader data.geometry raw' tags.object with
        | none =>
          simp only [hheader] at h
          exact Except.ok.inj h ▸ hget tags.object
        | some header =>
          simp only [hheader] at h
          by_cases hmatch : yaffsHeaderMatchesTags tags header = true
          · rw [if_pos hmatch] at h
            exact Except.ok.inj h ▸ hget tags.object
          · rw [if_neg hmatch] at h
            exact Except.ok.inj h ▸ hget tags.object

/-- All pages, in any order. -/
theorem yaffsScan_tracked {order : List ℕ} (hversion : data.geometry.version = 2)
    (h : yaffsScan order data = .ok data') (htracked : YaffsTracked records data) :
    data.SameMedium data' ∧ YaffsTracked
      (records ++ order.filterMap (yaffsRecordAt data.geometry data.disk.bytes)) data' := by
  induction order generalizing data records with
  | nil =>
    obtain rfl := Except.ok.inj h
    exact ⟨.refl data, by simpa using htracked⟩
  | cons page order ih =>
    rw [yaffsScan, List.foldlM_cons] at h
    obtain ⟨data₁, hpage, h⟩ := bind_eq_ok_iff.mp h
    obtain ⟨hmedium, htracked₁⟩ := yaffsScanPage_tracked hversion hpage htracked
    obtain ⟨hmedium', htracked'⟩ := ih (by rwa [hmedium.geometry]) h htracked₁
    refine ⟨hmedium.trans hmedium', ?_⟩
    rw [hmedium.geometry, hmedium.disk, List.append_assoc] at htracked'
    cases hrecord : yaffsRecordAt data.geometry data.disk.bytes page <;>
      simpa [hrecord] using htracked'

/-! ### The tree -/

/-- What checking the tree may do to an object: hide it, or make a directory of it that had no
header. -/
structure YaffsKept (o o' : YaffsObject) : Prop where
  id : o'.id = o.id
  chunks : o'.chunks = o.chunks
  header : (o'.valid = o.valid ∧ o'.type = o.type ∧ o'.size = o.size)
    ∨ (o.valid = false ∧ o'.valid = true ∧ o'.type = YAFFS_TYPE_DIRECTORY)

theorem YaffsKept.refl (o : YaffsObject) : YaffsKept o o := ⟨rfl, rfl, .inl ⟨rfl, rfl, rfl⟩⟩

theorem YaffsKept.trans {a b c : YaffsObject} (h : YaffsKept a b) (h' : YaffsKept b c) :
    YaffsKept a c := by
  refine ⟨h'.id.trans h.id, h'.chunks.trans h.chunks, ?_⟩
  rcases h.header with ⟨hvalid, htype, hsize⟩ | ⟨hvalid, hvalid', htype⟩
  · rcases h'.header with ⟨hv, ht, hs⟩ | ⟨hv, hv', ht⟩
    · exact .inl ⟨hv.trans hvalid, ht.trans htype, hs.trans hsize⟩
    · exact .inr ⟨hvalid ▸ hv, hv', ht⟩
  · rcases h'.header with ⟨hv, ht, hs⟩ | ⟨hv, hv', ht⟩
    · exact .inr ⟨hvalid, hv.trans hvalid', ht.trans htype⟩
    · rw [hvalid'] at hv
      cases hv

/-- Every object is kept. -/
structure YaffsData.Keeps (data data' : YaffsData) : Prop where
  medium : data.SameMedium data'
  objects : ∀ id, YaffsKept (data.objectAt id) (data'.objectAt id)

theorem YaffsData.Keeps.refl (data : YaffsData) : data.Keeps data := ⟨.refl data, fun _ => .refl _⟩

theorem YaffsData.Keeps.trans {a b c : YaffsData} (h : a.Keeps b) (h' : b.Keeps c) : a.Keeps c :=
  ⟨h.medium.trans h'.medium, fun id => (h.objects id).trans (h'.objects id)⟩

theorem yaffsShadow_keeps (data : YaffsData) (id : ℕ) : data.Keeps (yaffsShadow data id) := by
  refine ⟨sameMedium_modifyObject _ _ _, fun id' => ?_⟩
  rw [YaffsData.objectAt, YaffsData.objectAt, yaffsShadow,
    findObject_modifyObject (f := fun o => { o with shadowed := true }) (fun _ => rfl)]
  by_cases heq : id' = id
  · cases hfind : data.findObject id' with
    | none => simpa [heq] using YaffsKept.refl _
    | some o => simpa [heq] using ⟨rfl, rfl, .inl ⟨rfl, rfl, rfl⟩⟩
  · rw [if_neg heq]
    exact .refl _

theorem yaffsMakeSynthetic_keeps (data : YaffsData) (id parent : ℕ) (name : List UInt8) :
    data.Keeps (yaffsMakeSynthetic data id parent YAFFS_TYPE_DIRECTORY name) := by
  have hid : ∀ o : YaffsObject, (if o.valid then o else { o with
      name := name, parent := parent, type := YAFFS_TYPE_DIRECTORY, valid := true, synthetic := true
      mode := if YAFFS_TYPE_DIRECTORY = YAFFS_TYPE_DIRECTORY then 0o40755 else 0o100644 }).id = o.id :=
    fun o => by split_ifs <;> rfl
  refine ⟨(sameMedium_getObject data id).trans (sameMedium_modifyObject _ _ _), fun id' => ?_⟩
  rw [yaffsMakeSynthetic, objectAt_modify_get hid]
  by_cases heq : id' = id
  · rw [if_pos heq]
    by_cases hvalid : (data.objectAt id').valid = true
    · rw [if_pos hvalid]
      exact .refl _
    · rw [if_neg hvalid]
      exact ⟨rfl, rfl, .inr ⟨by simpa using hvalid, rfl, rfl⟩⟩
  · rw [if_neg heq]
    exact .refl _

theorem keeps_foldl {σ : Type} (get : σ → YaffsData) {f : σ → ℕ → σ}
    (hf : ∀ s id, (get s).Keeps (get (f s id))) (ids : List ℕ) (s : σ) :
    (get s).Keeps (get (ids.foldl f s)) := by
  induction ids generalizing s with
  | nil => exact .refl _
  | cons id ids ih => exact (hf s id).trans (ih (f s id))

theorem yaffsApplyShadow_keeps (data : YaffsData) (id : ℕ) :
    data.Keeps (yaffsApplyShadow data id) := by
  rw [yaffsApplyShadow]
  split
  · exact .refl data
  · split_ifs
    · exact yaffsShadow_keeps data _
    · exact .refl data

theorem yaffsHidePasses_keeps (n : ℕ) (data : YaffsData) : data.Keeps (yaffsHidePasses n data) := by
  have hpass : ∀ data : YaffsData, data.Keeps (yaffsHidePass data).1 := fun data =>
    keeps_foldl Prod.fst (fun s id => by
      split_ifs
      · exact yaffsShadow_keeps s.1 id
      · exact .refl s.1) data.ids (data, false)
  induction n generalizing data with
  | zero => exact .refl data
  | succ n ih =>
    simp only [yaffsHidePasses]
    split_ifs
    · exact (hpass data).trans (ih _)
    · exact hpass data

theorem yaffsValidateTree_keeps (h : yaffsValidateTree data = .ok data') : data.Keeps data' := by
  rw [yaffsValidateTree, refuseIf_bind_eq_ok_iff] at h
  obtain ⟨-, h⟩ := h
  obtain ⟨-, -, h⟩ := bind_eq_ok_iff.mp h
  obtain rfl := Except.ok.inj h
  have hroot := yaffsMakeSynthetic_keeps data YAFFS_OBJECTID_ROOT YAFFS_OBJECTID_ROOT []
  have hshadow : ∀ d : YaffsData, d.Keeps (d.ids.foldl yaffsApplyShadow d) := fun d =>
    keeps_foldl (fun d => d) yaffsApplyShadow_keeps d.ids d
  have hfold := hroot.trans (hshadow _)
  refine YaffsData.Keeps.trans ?_ (yaffsHidePasses_keeps _ _)
  split_ifs
  · exact hfold.trans (yaffsMakeSynthetic_keeps _ _ _ _)
  · exact hfold

/-! ### Mounting -/

theorem yaffsCandidates_sizes :
    ∀ g ∈ yaffsCandidates, 0 < g.dataSize ∧ g.dataSize ≤ g.recordSize := by decide

theorem yaffsDetectGeometry_mem {disk : SizedDisk} {diskSize : ℕ}
    (h : yaffsDetectGeometry disk diskSize = some g) : g ∈ yaffsCandidates := by
  have hfold : ∀ (l : List YaffsGeometry) (best : ℤ × Option YaffsGeometry),
      (∀ g ∈ l, g ∈ yaffsCandidates) → (∀ g, best.2 = some g → g ∈ yaffsCandidates) →
        ∀ g, (l.foldl (yaffsBetterGeometry disk diskSize) best).2 = some g →
          g ∈ yaffsCandidates := by
    intro l
    induction l with
    | nil => exact fun _ _ hbest => hbest
    | cons c l ih =>
      intro best hl hbest
      refine ih _ (fun g hg => hl g (List.mem_cons_of_mem _ hg)) fun g hg => ?_
      simp only [yaffsBetterGeometry] at hg
      split_ifs at hg
      · exact Option.some.inj hg ▸ hl c List.mem_cons_self
      · exact hbest g hg
  exact hfold yaffsCandidates _ (fun _ hg => hg) (fun _ hg => by cases hg) g h

/-- A mounted file system of version 2. -/
structure YaffsMounted (disk : SizedDisk) (order : ℕ → List ℕ) (data : YaffsData) : Prop where
  sizes : 0 < data.geometry.dataSize ∧ data.geometry.dataSize ≤ data.geometry.recordSize
  bound : ∃ sectors, data.disk = ⟨disk.bytes, some sectors⟩ ∧ data.diskSize = 512 * sectors
    ∧ data.pages = data.diskSize / data.geometry.recordSize
  objects : ∃ scanned, scanned.Keeps data ∧ YaffsTracked
    ((order data.pages).filterMap (yaffsRecordAt data.geometry disk.bytes)) scanned

theorem yaffsMount_spec {disk : SizedDisk} {order : ℕ → List ℕ}
    (h : yaffsMount order disk = .ok data) (hversion : data.geometry.version = 2) :
    YaffsMounted disk order data := by
  rw [yaffsMount] at h
  obtain ⟨sectors, hsectors, h⟩ := require_bind_eq_ok_iff.mp h
  rw [refuseIf_bind_eq_ok_iff] at h
  obtain ⟨-, h⟩ := h
  obtain ⟨g, hgeometry, h⟩ := require_bind_eq_ok_iff.mp h
  rw [refuseIf_bind_eq_ok_iff] at h
  obtain ⟨-, h⟩ := h
  obtain ⟨scanned, hscan, h⟩ := bind_eq_ok_iff.mp h
  rw [refuseIf_bind_eq_ok_iff] at h
  have hkeeps := yaffsValidateTree_keeps h.2
  have hblank : YaffsTracked [] ⟨disk, 512 * sectors, 512 * sectors / g.recordSize, g,
      fun _ => [], 0, 0⟩ := fun id => by
    simpa [YaffsData.objectAt, YaffsData.findObject] using yaffsTracks_nil id
  -- the geometry is the one that was detected
  have hsame : ∀ {order : List ℕ} {a b : YaffsData}, yaffsScan order a = .ok b →
      b.geometry = a.geometry := by
    intro order
    induction order with
    | nil => exact fun h => Except.ok.inj h ▸ rfl
    | cons page order ih =>
      intro a b h
      rw [yaffsScan, List.foldlM_cons] at h
      obtain ⟨a', hpage, h⟩ := bind_eq_ok_iff.mp h
      rw [ih h]
      exact yaffsScanPage_geometry hpage
  have hg : scanned.geometry = g := hsame hscan
  have hversion' : g.version = 2 := by rwa [hkeeps.medium.geometry, hg] at hversion
  obtain ⟨hmedium, htracked⟩ := yaffsScan_tracked hversion' hscan hblank
  have hmedium' := hmedium.trans hkeeps.medium
  refine ⟨?_, ⟨sectors, ?_, hmedium'.diskSize, ?_⟩, scanned, hkeeps, ?_⟩
  · rw [hmedium'.geometry]
    exact yaffsCandidates_sizes g (yaffsDetectGeometry_mem hgeometry)
  · rw [hmedium'.disk, ← hsectors]
  · rw [hmedium'.pages, hmedium'.diskSize, hmedium'.geometry]
  · rw [hmedium'.geometry, hmedium'.pages]
    exact htracked

end FsRover
