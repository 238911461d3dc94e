import FsRover.Fs.YaffsScan
import FsRover.Lib.History
import Mathlib.Data.List.Sort
import Mathlib.Data.List.TakeWhile

/-!
# Reading a YAFFS file as its log

The records of an object in the order of their sequence numbers and pages make a log. A file reads
as the replay of its log, unless a chunk that a smaller size has cut off comes into sight again.

## Main definitions

* `FsRover.yaffsLog`, `FsRover.yaffsReplay` : the log of an object, and the file it makes.
* `FsRover.YaffsStale` : the places where an outdated chunk is seen.

## Main results

* `FsRover.grubYaffsRead_eq` : what a read returns, whatever was read before.
* `FsRover.yaffs_replays_iff` : when this is the replay of the log.
-/

namespace FsRover

open Guards FileLog History

/-! ### The log -/

def YaffsRecord.object : YaffsRecord → ℕ
  | .data object _ => object
  | .header object _ => object

/-- The place of a record in the log. -/
def YaffsRecord.key : YaffsRecord → ℕ ×ₗ ℕ
  | .data _ chunk => chunk.key
  | .header _ h => h.key

def YaffsRecord.page : YaffsRecord → ℕ
  | .data _ chunk => chunk.page
  | .header _ h => h.page

/-- What a record does to its file. -/
def YaffsRecord.entry : YaffsRecord → Entry YaffsChunk
  | .data _ chunk => .write chunk.logical chunk
  | .header _ h => .resize h.header.size

/-- The second record does not come behind the first one in the log. -/
def YaffsRecord.NotOlder (r r' : YaffsRecord) : Prop := r'.key ≤ r.key

instance : DecidableRel YaffsRecord.NotOlder := fun r r' =>
  inferInstanceAs (Decidable (r'.key ≤ r.key))

instance : IsTrans YaffsRecord YaffsRecord.NotOlder := ⟨fun _ _ _ h h' => le_trans h' h⟩

instance : Std.Total YaffsRecord.NotOlder := ⟨fun r r' => le_total r'.key r.key⟩

/-- The records of an object, the newest in front. -/
def yaffsLog (g : YaffsGeometry) (bytes : Buf) (pages id : ℕ) : List YaffsRecord :=
  (((List.range pages).filterMap (yaffsRecordAt g bytes)).filter fun r => r.object = id).insertionSort
    YaffsRecord.NotOlder

/-- The file that the log of an object makes; chunk `k` begins `k - 1` chunk sizes into it. -/
def yaffsReplay (g : YaffsGeometry) (bytes : Buf) (pages id : ℕ) : FileLog.File YaffsChunk :=
  replay (fun k => (k - 1) * g.dataSize) ((yaffsLog g bytes pages id).map YaffsRecord.entry)

/-- Byte `i` of a chunk; what is missing is zero. -/
def yaffsChunkByte (g : YaffsGeometry) (bytes : Buf) (chunk : Option YaffsChunk) (i : ℕ) : UInt8 :=
  match chunk with
  | none => 0
  | some c => if i < c.bytes then bytes (c.page * g.recordSize + i) else 0

/-- Byte `x` of a file. -/
def yaffsFileByte (g : YaffsGeometry) (bytes : Buf) (file : FileLog.File YaffsChunk) (x : ℕ) :
    UInt8 :=
  yaffsChunkByte g bytes (file.chunk (x / g.dataSize + 1)) (x % g.dataSize)

variable {g : YaffsGeometry} {bytes : Buf} {pages id : ℕ}

theorem yaffsRecordAt_spec (hversion : g.version = 2) {page : ℕ} {record : YaffsRecord}
    (h : yaffsRecordAt g bytes page = some record) : record.page = page
      ∧ ∀ object chunk, record = .data object chunk →
        chunk.logical ≠ 0 ∧ chunk.logical ≤ YAFFS_CHUNK_MAX ∧ chunk.bytes ≤ g.dataSize := by
  rw [yaffsRecordAt] at h
  cases htags : yaffsParseTags g (bytes.from (page * g.recordSize + g.tagsOffset)) with
  | none =>
    rw [htags] at h
    cases h
  | some tags =>
    simp only [htags] at h
    by_cases hskip : yaffsSkips tags = true
    · rw [if_pos hskip] at h
      cases h
    · rw [if_neg hskip] at h
      by_cases hchunk : tags.chunk ≠ 0
      · rw [if_pos hchunk] at h
        obtain rfl := Option.some.inj h
        refine ⟨rfl, fun object chunk hrecord => ?_⟩
        obtain ⟨rfl, rfl⟩ := YaffsRecord.data.inj hrecord
        -- the checks of the tags
        rw [yaffsParseTags, if_neg (by omega), yaffsParseTags2] at htags
        simp only [yaffsSkips, Bool.or_eq_true, Bool.not_eq_true', decide_eq_true_eq] at hskip
        push Not at hskip
        simp only at htags
        split_ifs at htags with hblank hspecial hbad
        · obtain rfl := Option.some.inj htags
          exact absurd rfl hchunk
        · obtain rfl := Option.some.inj htags
          exact (hspecial.elim hskip.1.1.1.2 hskip.1.1.2).elim
        · obtain rfl := Option.some.inj htags
          push Not at hbad
          exact ⟨hchunk, hbad.2.2.2.2.1, hbad.2.2.2.2.2.1 hchunk⟩
      · rw [if_neg hchunk] at h
        cases hheader : yaffsParseHeader g (bytes.from (page * g.recordSize)) tags.object with
        | none =>
          rw [hheader] at h
          cases h
        | some header =>
          simp only [hheader] at h
          split_ifs at h
          obtain rfl := Option.some.inj h
          exact ⟨rfl, fun object chunk hrecord => by cases hrecord⟩

theorem mem_yaffsChunksOf {logical : ℕ} {records : List YaffsRecord} {c : YaffsChunk} :
    c ∈ yaffsChunksOf id logical records ↔ .data id c ∈ records ∧ c.logical = logical := by
  simp only [yaffsChunksOf, List.mem_filterMap]
  constructor
  · rintro ⟨record, hmem, hrecord⟩
    cases record with
    | header object h => cases hrecord
    | data object chunk =>
      simp only [YaffsRecord.chunk?] at hrecord
      split_ifs at hrecord with hmatch
      obtain rfl := Option.some.inj hrecord
      obtain ⟨rfl, rfl⟩ := hmatch
      exact ⟨hmem, rfl⟩
  · rintro ⟨hmem, rfl⟩
    exact ⟨_, hmem, by simp [YaffsRecord.chunk?]⟩

theorem mem_yaffsHeadersOf {records : List YaffsRecord} {h : YaffsHeaderRecord} :
    h ∈ yaffsHeadersOf id records ↔ .header id h ∈ records := by
  simp only [yaffsHeadersOf, List.mem_filterMap]
  constructor
  · rintro ⟨record, hmem, hrecord⟩
    cases record with
    | data object chunk => cases hrecord
    | header object header =>
      simp only [YaffsRecord.header?] at hrecord
      split_ifs at hrecord with hmatch
      obtain rfl := Option.some.inj hrecord
      exact hmatch ▸ hmem
  · exact fun hmem => ⟨_, hmem, by simp [YaffsRecord.header?]⟩

theorem record_eq_of_key (hversion : g.version = 2) {l : List ℕ} {r r' : YaffsRecord}
    (hr : r ∈ l.filterMap (yaffsRecordAt g bytes)) (hr' : r' ∈ l.filterMap (yaffsRecordAt g bytes))
    (hkey : r.key = r'.key) : r = r' := by
  obtain ⟨page, -, hpage⟩ := List.mem_filterMap.mp hr
  obtain ⟨page', -, hpage'⟩ := List.mem_filterMap.mp hr'
  have hat := (yaffsRecordAt_spec hversion hpage).1
  have hat' := (yaffsRecordAt_spec hversion hpage').1
  have hsame : r.page = r'.page := by
    have hsnd := congrArg (fun k => (ofLex k).2) hkey
    cases r <;> cases r' <;> exact hsnd
  rw [← hat, hsame, hat', hpage'] at hpage
  exact (Option.some.inj hpage).symm

theorem yaffsLog_perm (g : YaffsGeometry) (bytes : Buf) (pages id : ℕ) :
    (yaffsLog g bytes pages id).Perm
      (((List.range pages).filterMap (yaffsRecordAt g bytes)).filter fun r => r.object = id) :=
  List.perm_insertionSort _ _

theorem yaffsLog_sorted (g : YaffsGeometry) (bytes : Buf) (pages id : ℕ) :
    (yaffsLog g bytes pages id).Pairwise fun r r' => r'.key ≤ r.key :=
  List.pairwise_insertionSort YaffsRecord.NotOlder _

/-- In a sorted log the copy of a chunk that comes first is the newest one. -/
theorem lastWrite_entries {log : List YaffsRecord} (hobject : ∀ r ∈ log, r.object = id)
    (hsorted : log.Pairwise fun r r' => r'.key ≤ r.key) (logical : ℕ) :
    lastWrite logical (log.map YaffsRecord.entry)
      = newest YaffsChunk.key (yaffsChunksOf id logical log) := by
  induction log with
  | nil => rfl
  | cons r log ih =>
    obtain ⟨hr, hrest⟩ := List.pairwise_cons.mp hsorted
    have ih := ih (fun r hr => hobject r (List.mem_cons_of_mem _ hr)) hrest
    have hself := hobject r List.mem_cons_self
    cases r with
    | header object h =>
      simpa [YaffsRecord.entry, lastWrite, yaffsChunksOf, List.filterMap_cons, YaffsRecord.chunk?]
        using ih
    | data object c =>
      have hid : object = id := hself
      by_cases hl : c.logical = logical
      · have hle : ∀ c' ∈ yaffsChunksOf id logical log, c'.key ≤ c.key := fun c' hc' =>
          hr _ (mem_yaffsChunksOf.mp hc').1
        have hnew := newest_cons_of_le hle
        simpa [YaffsRecord.entry, lastWrite, yaffsChunksOf, List.filterMap_cons, YaffsRecord.chunk?,
          hid, hl] using hnew.symm
      · simpa [YaffsRecord.entry, lastWrite, yaffsChunksOf, List.filterMap_cons, YaffsRecord.chunk?,
          hid, hl] using ih

/-- The size that was set first in a sorted log is the one of the newest header. -/
theorem size_entries {log : List YaffsRecord} (hobject : ∀ r ∈ log, r.object = id)
    (hsorted : log.Pairwise fun r r' => r'.key ≤ r.key) {h : YaffsHeaderRecord}
    (hnewest : newest YaffsHeaderRecord.key (yaffsHeadersOf id log) = some h) :
    size (log.map YaffsRecord.entry) = h.header.size := by
  induction log with
  | nil => cases hnewest
  | cons r log ih =>
    obtain ⟨hr, hrest⟩ := List.pairwise_cons.mp hsorted
    have ih := ih (fun r hr => hobject r (List.mem_cons_of_mem _ hr)) hrest
    have hself := hobject r List.mem_cons_self
    cases r with
    | data object c =>
      exact ih (by simpa [yaffsHeadersOf, List.filterMap_cons, YaffsRecord.header?] using hnewest)
    | header object h' =>
      have hid : object = id := hself
      have hle : ∀ k ∈ yaffsHeadersOf id log, k.key ≤ h'.key := fun k hk =>
        hr _ (mem_yaffsHeadersOf.mp hk)
      have hnew := newest_cons_of_le hle
      have hcons : yaffsHeadersOf id (.header object h' :: log) = h' :: yaffsHeadersOf id log := by
        simp [yaffsHeadersOf, YaffsRecord.header?, hid]
      rw [hcons, hnew] at hnewest
      obtain rfl := Option.some.inj hnewest
      rfl

/-! ### Reads -/

variable {disk : SizedDisk} {order : ℕ → List ℕ} {data : YaffsData} {o : YaffsObject}

/-- What is known of the object of an open file: its chunks are the newest copies. -/
structure YaffsOpened (disk : SizedDisk) (data : YaffsData) (id : ℕ) (o : YaffsObject) : Prop where
  sorted : o.chunks.Pairwise fun c c' => c.logical < c'.logical
  chunks : ∀ logical c, (c ∈ o.chunks ∧ c.logical = logical) ↔ lastWrite logical
    ((yaffsLog data.geometry disk.bytes data.pages id).map YaffsRecord.entry) = some c
  size : o.size = (yaffsReplay data.geometry disk.bytes data.pages id).size
  fits : ∀ c ∈ o.chunks, c.logical ≤ YAFFS_CHUNK_MAX ∧ c.page < data.pages
    ∧ c.bytes ≤ data.geometry.dataSize

theorem YaffsMounted.opened (hmounted : YaffsMounted disk order data)
    (hversion : data.geometry.version = 2) (horder : ∀ n, (order n).Perm (List.range n))
    (ho : data.findObject id = some o) (hvisible : yaffsObjectVisible o = true)
    (htype : o.type = YAFFS_TYPE_FILE) : YaffsOpened disk data id o := by
  obtain ⟨scanned, hkeeps, htracked⟩ := hmounted.objects
  have hkept := hkeeps.objects id
  have htracks := htracked id
  have hself : data.objectAt id = o := by rw [YaffsData.objectAt, ho, Option.getD_some]
  rw [hself] at hkept
  -- the object has a header of its own, as a file is no directory
  have hheader : o.valid = (scanned.objectAt id).valid ∧ o.size = (scanned.objectAt id).size := by
    rcases hkept.header with h | ⟨-, -, hdir⟩
    · exact ⟨h.1, h.2.2⟩
    · rw [htype] at hdir
      cases hdir
  have hvalid : o.valid = true := by
    simp only [yaffsObjectVisible, Bool.and_eq_true] at hvisible
    exact hvisible.1.1.1
  -- the records in the order of the scan and in that of the log
  have hperm : (yaffsLog data.geometry disk.bytes data.pages id).Perm
      (((order data.pages).filterMap (yaffsRecordAt data.geometry disk.bytes)).filter
        fun r => r.object = id) :=
    (yaffsLog_perm _ _ _ _).trans (((horder data.pages).symm.filterMap _).filter _)
  have hobject : ∀ r ∈ yaffsLog data.geometry disk.bytes data.pages id, r.object = id := by
    intro r hr
    simpa using (List.mem_filter.mp (hperm.mem_iff.mp hr)).2
  have hrecord : ∀ r, r ∈ yaffsLog data.geometry disk.bytes data.pages id →
      r ∈ (order data.pages).filterMap (yaffsRecordAt data.geometry disk.bytes) := fun r hr =>
    (List.mem_filter.mp (hperm.mem_iff.mp hr)).1
  have hback : ∀ r, r.object = id →
      r ∈ (order data.pages).filterMap (yaffsRecordAt data.geometry disk.bytes) →
        r ∈ yaffsLog data.geometry disk.bytes data.pages id := fun r hr hmem =>
    hperm.mem_iff.mpr (List.mem_filter.mpr ⟨hmem, by simpa using hr⟩)
  have hsorted := yaffsLog_sorted data.geometry disk.bytes data.pages id
  have hchunks : ∀ logical, lastWrite logical
      ((yaffsLog data.geometry disk.bytes data.pages id).map YaffsRecord.entry)
        = newest YaffsChunk.key (yaffsChunksOf id logical
          ((order data.pages).filterMap (yaffsRecordAt data.geometry disk.bytes))) := by
    intro logical
    rw [lastWrite_entries hobject hsorted]
    refine Option.ext fun c => ?_
    have hmem : ∀ c, c ∈ yaffsChunksOf id logical (yaffsLog data.geometry disk.bytes data.pages id)
        ↔ c ∈ yaffsChunksOf id logical
          ((order data.pages).filterMap (yaffsRecordAt data.geometry disk.bytes)) := fun c => by
      rw [mem_yaffsChunksOf, mem_yaffsChunksOf]
      exact and_congr_left fun _ => ⟨hrecord _, hback _ rfl⟩
    have hinj : ∀ a ∈ yaffsChunksOf id logical
        ((order data.pages).filterMap (yaffsRecordAt data.geometry disk.bytes)),
        ∀ b ∈ yaffsChunksOf id logical
          ((order data.pages).filterMap (yaffsRecordAt data.geometry disk.bytes)),
          a.key = b.key → a = b := fun a ha b hb hkey =>
      (YaffsRecord.data.inj (record_eq_of_key hversion (mem_yaffsChunksOf.mp ha).1
        (mem_yaffsChunksOf.mp hb).1 hkey)).2
    rw [newest_eq_some_iff hinj,
      newest_eq_some_iff fun a ha b hb => hinj a ((hmem a).mp ha) b ((hmem b).mp hb)]
    simp only [hmem]
  refine ⟨hkept.chunks ▸ htracks.sorted, fun logical c => ?_, ?_, fun c hc => ?_⟩
  · rw [hkept.chunks, hchunks]
    constructor
    · rintro ⟨hc, rfl⟩
      exact (htracks.chunks c).mp hc
    · intro hnew
      have hlogical := (mem_yaffsChunksOf.mp ((newest_spec _).2 c hnew).1).2
      rw [← hlogical] at hnew
      exact ⟨(htracks.chunks c).mpr hnew, hlogical⟩
  · rw [yaffsReplay, replay_size, hheader.2]
    have hheld := htracks.header
    cases hnew : newest YaffsHeaderRecord.key (yaffsHeadersOf id
        ((order data.pages).filterMap (yaffsRecordAt data.geometry disk.bytes))) with
    | none =>
      rw [hnew] at hheld
      rw [hheader.1, show (scanned.objectAt id).valid = false from hheld] at hvalid
      cases hvalid
    | some h =>
      rw [hnew] at hheld
      have hmem : ∀ h, h ∈ yaffsHeadersOf id (yaffsLog data.geometry disk.bytes data.pages id)
          ↔ h ∈ yaffsHeadersOf id
            ((order data.pages).filterMap (yaffsRecordAt data.geometry disk.bytes)) := fun h => by
        rw [mem_yaffsHeadersOf, mem_yaffsHeadersOf]
        exact ⟨hrecord _, hback _ rfl⟩
      have hinj : ∀ a ∈ yaffsHeadersOf id (yaffsLog data.geometry disk.bytes data.pages id),
          ∀ b ∈ yaffsHeadersOf id (yaffsLog data.geometry disk.bytes data.pages id),
            a.key = b.key → a = b := fun a ha b hb hkey =>
        (YaffsRecord.header.inj (record_eq_of_key hversion
          (hrecord _ (mem_yaffsHeadersOf.mp ha)) (hrecord _ (mem_yaffsHeadersOf.mp hb)) hkey)).2
      obtain ⟨hin, hmax⟩ := (newest_spec _).2 h hnew
      have hlog := (newest_eq_some_iff hinj).mpr
        ⟨(hmem h).mpr hin, fun a ha => hmax a ((hmem a).mp ha)⟩
      rw [size_entries hobject hsorted hlog]
      exact hheld.2.2.1
  · rw [hkept.chunks] at hc
    have hmem := (mem_yaffsChunksOf.mp ((newest_spec _).2 c ((htracks.chunks c).mp hc)).1).1
    obtain ⟨page, hpage, hat⟩ := List.mem_filterMap.mp hmem
    obtain ⟨rfl, hchecks⟩ := yaffsRecordAt_spec hversion hat
    obtain ⟨-, hmax, hbytes⟩ := hchecks id c rfl
    exact ⟨hmax, List.mem_range.mp ((horder data.pages).mem_iff.mp hpage), hbytes⟩

/-- The cursor is a place in the list of chunks. -/
def YaffsCursorOk (o : YaffsObject) (cursor : YaffsCursor) : Prop :=
  ∃ front, o.chunks = front ++ cursor.readChunk
    ∧ (cursor.readChunk ≠ [] → ∀ c ∈ front, c.logical < cursor.readLogical)

theorem yaffsOpenCursor_ok (o : YaffsObject) : YaffsCursorOk o (yaffsOpenCursor o) :=
  ⟨[], rfl, fun _ c hc => by cases hc⟩

/-- A search finds the chunk if there is one, from wherever it starts. -/
theorem yaffsFindChunk_spec {cursor : YaffsCursor}
    (hsorted : o.chunks.Pairwise fun c c' => c.logical < c'.logical)
    (hcursor : YaffsCursorOk o cursor) (logical : ℕ) :
    (∀ c, (yaffsFindChunk o cursor logical).1 = some c ↔ c ∈ o.chunks ∧ c.logical = logical)
      ∧ YaffsCursorOk o (yaffsFindChunk o cursor logical).2 := by
  -- the chunks before the start of the search are too small
  obtain ⟨front, start, hsplit, hfront, hfind⟩ : ∃ front start, o.chunks = front ++ start
      ∧ (∀ c ∈ front, c.logical < logical)
      ∧ yaffsFindChunk o cursor logical
        = (((start.dropWhile (·.logical < logical)).head?.filter (·.logical = logical)),
          ⟨start.dropWhile (·.logical < logical),
            ((start.dropWhile (·.logical < logical)).head?.map YaffsChunk.logical).getD
              0xffffffff⟩) := by
    rw [yaffsFindChunk]
    by_cases hback : cursor.readChunk = [] ∨ logical < cursor.readLogical
    · rw [if_pos hback]
      exact ⟨[], o.chunks, rfl, (fun c hc => by cases hc), rfl⟩
    · rw [if_neg hback]
      rw [not_or] at hback
      obtain ⟨front, hsplit, hsmall⟩ := hcursor
      refine ⟨front, cursor.readChunk, hsplit, fun c hc => ?_, rfl⟩
      have hlt := hsmall hback.1 c hc
      omega
  rw [hfind]
  have hwhole : o.chunks = (front ++ start.takeWhile (·.logical < logical))
      ++ start.dropWhile (·.logical < logical) := by
    rw [List.append_assoc, List.takeWhile_append_dropWhile, hsplit]
  have hsmall : ∀ c ∈ front ++ start.takeWhile (·.logical < logical), c.logical < logical := by
    intro c hc
    rcases List.mem_append.mp hc with hc | hc
    · exact hfront c hc
    · simpa using List.mem_takeWhile_imp hc
  cases hrest : start.dropWhile (·.logical < logical) with
  | nil =>
    rw [hrest, List.append_nil] at hwhole
    refine ⟨fun c => ⟨(fun h => by cases h), fun hc => ?_⟩,
      ⟨front ++ start.takeWhile (·.logical < logical), by simpa using hwhole, fun h => absurd rfl h⟩⟩
    have hlt := hsmall c (hwhole ▸ hc.1)
    omega
  | cons first rest =>
    have hfirst : logical ≤ first.logical := by
      have h := List.head?_dropWhile_not (fun c : YaffsChunk => decide (c.logical < logical)) start
      rw [hrest] at h
      simpa using h
    rw [hrest] at hwhole
    rw [hwhole, List.pairwise_append] at hsorted
    obtain ⟨-, hsuffix, -⟩ := hsorted
    have hbehind := (List.pairwise_cons.mp hsuffix).1
    refine ⟨fun c => ?_, ⟨front ++ start.takeWhile (·.logical < logical), hwhole,
      fun _ c hc => (hsmall c hc).trans_le hfirst⟩⟩
    simp only [List.head?_cons, Option.filter_eq_some_iff, Option.some.injEq, decide_eq_true_eq]
    constructor
    · rintro ⟨rfl, hl⟩
      exact ⟨hwhole ▸ List.mem_append_right _ List.mem_cons_self, hl⟩
    · rintro ⟨hc, hl⟩
      rw [hwhole] at hc
      rcases List.mem_append.mp hc with hc | hc
      · have hlt := hsmall c hc
        omega
      · rcases List.mem_cons.mp hc with rfl | hc
        · exact ⟨rfl, hl⟩
        · have hlt := hbehind c hc
          omega

/-- The byte that a read takes for byte `x`: its chunk number is computed in 32 bits. -/
def yaffsSeenByte (g : YaffsGeometry) (bytes : Buf) (log : List (Entry YaffsChunk)) (x : ℕ) :
    UInt8 :=
  yaffsChunkByte g bytes (lastWrite ((x / g.dataSize + 1) % 2 ^ 32) log) (x % g.dataSize)

/-- The log of an object of a mounted file system. -/
def yaffsEntries (disk : SizedDisk) (data : YaffsData) (id : ℕ) : List (Entry YaffsChunk) :=
  (yaffsLog data.geometry disk.bytes data.pages id).map YaffsRecord.entry

theorem yaffsReadPart_eq (hmounted : YaffsMounted disk order data) (h : YaffsOpened disk data id o)
    {cursor : YaffsCursor} (hcursor : YaffsCursorOk o cursor) (offset part : ℕ)
    (hpart : offset % data.geometry.dataSize + part ≤ data.geometry.dataSize) :
    ∃ cursor', yaffsReadPart data o cursor offset part
        = (.ok (slice (yaffsSeenByte data.geometry disk.bytes (yaffsEntries disk data id)) offset part),
          cursor') ∧ YaffsCursorOk o cursor' := by
  obtain ⟨sectors, hdisk, hsize, hpages⟩ := hmounted.bound
  obtain ⟨hpos, hrecord⟩ := hmounted.sizes
  have hlogical : (offset / data.geometry.dataSize % 2 ^ 32 + 1) % 2 ^ 32
      = (offset / data.geometry.dataSize + 1) % 2 ^ 32 := by omega
  -- the bytes of the round
  have hat : ∀ i < part, yaffsSeenByte data.geometry disk.bytes (yaffsEntries disk data id) (offset + i)
      = yaffsChunkByte data.geometry disk.bytes (lastWrite
        ((offset / data.geometry.dataSize + 1) % 2 ^ 32) (yaffsEntries disk data id))
          (offset % data.geometry.dataSize + i) := by
    intro i hi
    obtain ⟨hdiv, hmod⟩ := div_mod_add_of_lt
      (show offset % data.geometry.dataSize + i < data.geometry.dataSize by omega)
    rw [yaffsSeenByte, hdiv, hmod]
  have hfind := yaffsFindChunk_spec h.sorted hcursor
    ((offset / data.geometry.dataSize + 1) % 2 ^ 32)
  rw [yaffsReadPart]
  simp only [hlogical]
  refine ⟨_, ?_, hfind.2⟩
  cases hfound : (yaffsFindChunk o cursor ((offset / data.geometry.dataSize + 1) % 2 ^ 32)).1 with
  | none =>
    have hnone : lastWrite ((offset / data.geometry.dataSize + 1) % 2 ^ 32)
        (yaffsEntries disk data id) = none := by
      refine Option.eq_none_iff_forall_ne_some.mpr fun c hc => ?_
      have hsome := (hfind.1 c).mpr ((h.chunks _ c).mpr hc)
      rw [hfound] at hsome
      cases hsome
    simp only
    refine Prod.ext (congrArg Except.ok (List.ext_getElem (by simp) fun i hi _ => ?_)) rfl
    rw [List.length_replicate] at hi
    rw [List.getElem_replicate, getElem_slice, hat i hi, hnone]
    rfl
  | some c =>
    obtain ⟨hmem, hc⟩ := (hfind.1 c).mp hfound
    have hlast := (h.chunks _ c).mp ⟨hmem, hc⟩
    obtain ⟨-, hpage, hbytes⟩ := h.fits c hmem
    have hlast' : lastWrite ((offset / data.geometry.dataSize + 1) % 2 ^ 32)
        (yaffsEntries disk data id) = some c := hlast
    simp only
    by_cases hmissing : c.bytes ≤ offset % data.geometry.dataSize
    · rw [if_pos hmissing]
      refine Prod.ext (congrArg Except.ok (List.ext_getElem (by simp) fun i hi _ => ?_)) rfl
      rw [List.length_replicate] at hi
      rw [List.getElem_replicate, getElem_slice, hat i hi, hlast', yaffsChunkByte, if_neg (by omega)]
    · rw [if_neg hmissing]
      -- the page lies on the disk
      have hend : (c.page + 1) * data.geometry.recordSize ≤ data.diskSize :=
        (Nat.mul_le_mul_right _ (by omega)).trans (hpages ▸ Nat.div_mul_le_self _ _)
      rw [Nat.add_mul, Nat.one_mul] at hend
      have hread : yaffsDiskRead data.disk data.diskSize
          (c.page * data.geometry.recordSize + offset % data.geometry.dataSize)
          (min part (c.bytes - offset % data.geometry.dataSize))
          = .ok (disk.bytes.from
            (c.page * data.geometry.recordSize + offset % data.geometry.dataSize)) := by
        rw [yaffsDiskRead, refuseIf_bind_eq_ok_iff, hdisk, SizedDisk.read]
        simp only
        rw [if_pos (by omega)]
        exact ⟨by omega, rfl⟩
      rw [hread]
      simp only
      refine Prod.ext (congrArg Except.ok (List.ext_getElem ?_ fun i hi _ => ?_)) rfl
      · simp
      · have hi' : i < part := by
          simp only [List.length_append, Buf.length_list, List.length_replicate] at hi
          omega
        rw [getElem_slice, hat i hi', hlast', yaffsChunkByte]
        by_cases hpresent : i < min part (c.bytes - offset % data.geometry.dataSize)
        · rw [List.getElem_append_left (by simpa using hpresent), if_pos (by omega)]
          simp [Nat.add_assoc]
        · have hlen : ¬ i < (((disk.bytes.from (c.page * data.geometry.recordSize
              + offset % data.geometry.dataSize)).list 0
                (min part (c.bytes - offset % data.geometry.dataSize)))).length := by
            rwa [Buf.length_list]
          rw [List.getElem_append_right (Nat.not_lt.mp hlen), if_neg (by omega)]
          simp

theorem yaffsReadParts_eq (hmounted : YaffsMounted disk order data) (h : YaffsOpened disk data id o)
    {fuel : ℕ} {cursor : YaffsCursor} (hcursor : YaffsCursorOk o cursor) (offset left : ℕ)
    (hfuel : left ≤ fuel) : ∃ cursor', yaffsReadParts data o fuel cursor offset left
        = (.ok (slice (yaffsSeenByte data.geometry disk.bytes (yaffsEntries disk data id)) offset left),
          cursor') ∧ YaffsCursorOk o cursor' := by
  obtain ⟨hpos, -⟩ := hmounted.sizes
  induction fuel generalizing cursor offset left with
  | zero =>
    obtain rfl : left = 0 := by omega
    exact ⟨cursor, rfl, hcursor⟩
  | succ fuel ih =>
    rw [yaffsReadParts]
    by_cases hleft : left = 0
    · rw [if_pos hleft, hleft]
      exact ⟨cursor, rfl, hcursor⟩
    · have hmod := Nat.mod_lt offset hpos
      obtain ⟨cursor₁, hpart, hcursor₁⟩ := yaffsReadPart_eq hmounted h hcursor offset
        (min left (data.geometry.dataSize - offset % data.geometry.dataSize)) (by omega)
      obtain ⟨cursor₂, hrest, hcursor₂⟩ := ih hcursor₁
        (offset + min left (data.geometry.dataSize - offset % data.geometry.dataSize))
        (left - min left (data.geometry.dataSize - offset % data.geometry.dataSize)) (by omega)
      rw [if_neg hleft]
      simp only
      rw [hpart]
      simp only
      rw [hrest]
      refine ⟨cursor₂, ?_, hcursor₂⟩
      simp only
      rw [slice_append, Nat.add_sub_cancel' (by omega)]

/-- What a read returns does not depend on the reads before it. -/
theorem grubYaffsRead_eq (hmounted : YaffsMounted disk order data) (h : YaffsOpened disk data id o)
    (reads : List (ℕ × ℕ)) {offset length : ℕ} (hoffset : offset ≤ o.size) :
    (grubYaffsRead data o (after (fun cursor (r : ℕ × ℕ) => grubYaffsRead data o cursor r.1 r.2)
      (yaffsOpenCursor o) reads) offset length).1
      = .ok (slice (yaffsSeenByte data.geometry disk.bytes (yaffsEntries disk data id)) offset
        (min length (o.size - offset))) := by
  have hstep : ∀ cursor (r : ℕ × ℕ), YaffsCursorOk o cursor →
      YaffsCursorOk o (grubYaffsRead data o cursor r.1 r.2).2 := by
    intro cursor r hcursor
    rw [grubYaffsRead]
    by_cases hpast : o.size < r.1
    · rw [if_pos hpast]
      exact hcursor
    · obtain ⟨cursor', heq, hcursor'⟩ := yaffsReadParts_eq hmounted h hcursor r.1 _
        (Nat.le_refl (min r.2 (o.size - r.1)))
      rw [if_neg hpast]
      simp only
      rw [heq]
      exact hcursor'
  have hcursor := after_inv hstep (yaffsOpenCursor_ok o) reads
  obtain ⟨cursor', heq, -⟩ := yaffsReadParts_eq hmounted h hcursor offset _
    (Nat.le_refl (min length (o.size - offset)))
  rw [grubYaffsRead, if_neg (by omega)]
  simp only
  rw [heq]

/-! ### The replay -/

/-- At byte `x` the newest copy of a chunk is seen although it was cut off, or although it lies
`2 ^ 32` chunks before. -/
def YaffsStale (g : YaffsGeometry) (log : List (Entry YaffsChunk)) (x : ℕ) : Prop :=
  Discarded (fun k => (k - 1) * g.dataSize) (x / g.dataSize + 1) log
    ∨ 2 ^ 32 ≤ x / g.dataSize + 1

/-- Reading an object of a mounted file system gives the replay of its log, in whatever order the
pages were scanned and whatever was read before, unless a byte of an outdated chunk is seen. -/
theorem yaffs_replays_iff (horder : ∀ n, (order n).Perm (List.range n))
    (hmount : yaffsMount order disk = .ok data) (hversion : data.geometry.version = 2)
    (ho : data.findObject id = some o) (hvisible : yaffsObjectVisible o = true)
    (htype : o.type = YAFFS_TYPE_FILE) :
    o.size = (yaffsReplay data.geometry disk.bytes data.pages id).size ∧
      ((∀ (reads : List (ℕ × ℕ)) (offset length : ℕ), offset ≤ o.size →
        (grubYaffsRead data o (after (fun cursor (r : ℕ × ℕ) => grubYaffsRead data o cursor r.1 r.2)
          (yaffsOpenCursor o) reads) offset length).1
          = .ok (slice (yaffsFileByte data.geometry disk.bytes
            (yaffsReplay data.geometry disk.bytes data.pages id)) offset
              (min length (o.size - offset))))
      ↔ ∀ x < o.size, ∀ c, YaffsStale data.geometry (yaffsEntries disk data id) x →
        lastWrite ((x / data.geometry.dataSize + 1) % 2 ^ 32) (yaffsEntries disk data id) = some c →
          x % data.geometry.dataSize < c.bytes →
            disk.bytes (c.page * data.geometry.recordSize + x % data.geometry.dataSize) = 0) := by
  have hmounted := yaffsMount_spec hmount hversion
  have hopened := hmounted.opened hversion horder ho hvisible htype
  -- where the two bytes differ
  have hsame : ∀ x, yaffsSeenByte data.geometry disk.bytes (yaffsEntries disk data id) x
      = yaffsFileByte data.geometry disk.bytes
        (yaffsReplay data.geometry disk.bytes data.pages id) x
      ↔ ∀ c, YaffsStale data.geometry (yaffsEntries disk data id) x →
        lastWrite ((x / data.geometry.dataSize + 1) % 2 ^ 32) (yaffsEntries disk data id) = some c →
          x % data.geometry.dataSize < c.bytes →
            disk.bytes (c.page * data.geometry.recordSize + x % data.geometry.dataSize) = 0 := by
    intro x
    have hreplay := replay_chunk (fun k => (k - 1) * data.geometry.dataSize)
      (yaffsEntries disk data id) (x / data.geometry.dataSize + 1)
    -- chunks this far behind are never written
    have hfar : 2 ^ 32 ≤ x / data.geometry.dataSize + 1 →
        lastWrite (x / data.geometry.dataSize + 1) (yaffsEntries disk data id) = none := by
      intro hle
      refine Option.eq_none_iff_forall_ne_some.mpr fun c hc => ?_
      obtain ⟨hmem, hlogical⟩ := (hopened.chunks _ c).mpr hc
      have hmax := (hopened.fits c hmem).1
      rw [hlogical, YAFFS_CHUNK_MAX] at hmax
      omega
    by_cases hstale : YaffsStale data.geometry (yaffsEntries disk data id) x
    · have hfile : yaffsFileByte data.geometry disk.bytes
          (yaffsReplay data.geometry disk.bytes data.pages id) x = 0 := by
        have hnone : (yaffsReplay data.geometry disk.bytes data.pages id).chunk
            (x / data.geometry.dataSize + 1) = none := by
          by_cases hcut : Discarded (fun k => (k - 1) * data.geometry.dataSize)
              (x / data.geometry.dataSize + 1) (yaffsEntries disk data id)
          · exact hreplay.1 hcut
          · exact (hreplay.2 hcut).trans (hfar (hstale.resolve_left hcut))
        rw [yaffsFileByte, hnone]
        rfl
      rw [hfile, yaffsSeenByte]
      cases hlast : lastWrite ((x / data.geometry.dataSize + 1) % 2 ^ 32)
          (yaffsEntries disk data id) with
      | none => simp [yaffsChunkByte]
      | some c =>
        simp only [yaffsChunkByte, ite_eq_right_iff, Option.some.injEq, forall_eq', hstale,
          forall_const]
    · have hno : ¬ Discarded (fun k => (k - 1) * data.geometry.dataSize)
          (x / data.geometry.dataSize + 1) (yaffsEntries disk data id) := fun h => hstale (.inl h)
      have hlt : x / data.geometry.dataSize + 1 < 2 ^ 32 :=
        Nat.not_le.mp fun h => hstale (.inr h)
      have hchunk := hreplay.2 hno
      refine ⟨fun _ c h => absurd h hstale, fun _ => ?_⟩
      rw [yaffsSeenByte, yaffsFileByte, Nat.mod_eq_of_lt hlt, yaffsReplay]
      exact congrArg (fun c => yaffsChunkByte data.geometry disk.bytes c _) hchunk.symm
  refine ⟨hopened.size, fun h x hx => (hsame x).mp ?_, fun h reads offset length hoffset => ?_⟩
  · have hread := h [] x 1 hx.le
    rw [grubYaffsRead_eq hmounted hopened [] hx.le, show min 1 (o.size - x) = 1 by omega] at hread
    have hlist := Except.ok.inj hread
    simpa [slice] using hlist
  · rw [grubYaffsRead_eq hmounted hopened reads hoffset]
    refine congrArg Except.ok (slice_congr fun x _ hx => (hsame x).mpr (h x (by omega)))

/-- An image in which a file of 2000 bytes is cut to 500 and grows again; its second chunk begins
with the byte `0x41`. -/
def yaffsRegrown : SizedDisk :=
  ⟨Buf.ofFields
    [(0, [1, 0, 0, 0, 1, 0, 0, 0, 0, 0, 0x61]), (292, [0xd0, 7]), (1008, [0, 0x10, 0, 0, 1, 1]),
      (1024, [0x41]), (2032, [0, 0x10, 0, 0, 1, 1, 0, 0, 2, 0, 0, 0, 0xe0, 3]),
      (2048, [1, 0, 0, 0, 1, 0, 0, 0, 0, 0, 0x61]), (2340, [0xf4, 1]),
      (3056, [0, 0x10, 0, 0, 1, 1]),
      (3072, [1, 0, 0, 0, 1, 0, 0, 0, 0, 0, 0x61]), (3364, [0xd0, 7]),
      (4080, [0, 0x10, 0, 0, 1, 1])], some 8⟩

theorem yaffsRegrown_mounts : (yaffsMount List.range yaffsRegrown).toOption.isSome = true := by
  decide +kernel

theorem yaffsRegrown_object :
    (((yaffsMount List.range yaffsRegrown).toOption.get yaffsRegrown_mounts).findObject 257).isSome
      = true := by
  decide +kernel

/-- Byte 1008 of the file reads as `0x41`, and the log makes it zero. -/
theorem yaffs_regrown_differs : ∃ data o, yaffsMount List.range yaffsRegrown = .ok data
    ∧ data.geometry.version = 2 ∧ data.findObject 257 = some o ∧ yaffsObjectVisible o = true
    ∧ o.type = YAFFS_TYPE_FILE
    ∧ (grubYaffsRead data o (yaffsOpenCursor o) 1008 1).1.toOption = some [0x41]
    ∧ yaffsFileByte data.geometry yaffsRegrown.bytes
      (yaffsReplay data.geometry yaffsRegrown.bytes data.pages 257) 1008 = 0 := by
  refine ⟨_, _, eq_ok_get yaffsRegrown_mounts, ?_, (Option.some_get yaffsRegrown_object).symm, ?_, ?_,
    ?_, ?_⟩ <;> decide +kernel

/-- The file before it is cut. -/
def yaffsWritten : SizedDisk :=
  ⟨Buf.ofFields
    [(0, [1, 0, 0, 0, 1, 0, 0, 0, 0, 0, 0x61]), (292, [0xd0, 7]), (1008, [0, 0x10, 0, 0, 1, 1]),
      (1024, [0x41]), (2032, [0, 0x10, 0, 0, 1, 1, 0, 0, 2, 0, 0, 0, 0xe0, 3])], some 4⟩

theorem yaffsWritten_mounts : (yaffsMount List.range yaffsWritten).toOption.isSome = true := by
  decide +kernel

theorem yaffsWritten_object :
    (((yaffsMount List.range yaffsWritten).toOption.get yaffsWritten_mounts).findObject 257).isSome
      = true := by
  decide +kernel

theorem yaffs_replays_written : ∃ data o, yaffsMount List.range yaffsWritten = .ok data
    ∧ data.findObject 257 = some o
    ∧ o.size = (yaffsReplay data.geometry yaffsWritten.bytes data.pages 257).size := by
  exact ⟨_, _, eq_ok_get yaffsWritten_mounts, (Option.some_get yaffsWritten_object).symm,
    (yaffs_replays_iff (fun n => List.Perm.refl (List.range n)) (eq_ok_get yaffsWritten_mounts)
      (by decide +kernel) (Option.some_get yaffsWritten_object).symm (by decide +kernel)
      (by decide +kernel)).1⟩

end FsRover
