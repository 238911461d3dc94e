import FsRover.Bytes
import FsRover.Grub

/-!
# Where a file lies

`grub_file_map_range` asks a driver where the bytes of a file lie. The driver hands over extents in
the order of the file; each is checked, clipped to the query and joined to the one before it where
both are plain, and the caller's hook gets what comes out. A run here is one that nobody stops: the
hook and the cancellation poll always answer 0.

## Main definitions

* `FsRover.FileMapExtent.ShowsBelow` : what an extent says of the bytes of the file is so.

## Main results

* `FsRover.FileMapGood.emit` : one extent handed over.
* `FsRover.grubFileMapRange_run` : what the hook gets.
-/

namespace FsRover

def GRUB_FILE_MAP_DIRECT : ℕ := 1
def GRUB_FILE_MAP_ZERO : ℕ := 2
def GRUB_FILE_MAP_HOLE : ℕ := 4
def GRUB_FILE_MAP_INLINE : ℕ := 8
def GRUB_FILE_MAP_COMPRESSED : ℕ := 16
def GRUB_FILE_MAP_UNWRITTEN : ℕ := 32
def GRUB_FILE_MAP_UNKNOWN : ℕ := 64
def GRUB_FILE_MAP_TRANSFORMED : ℕ := 128
def GRUB_FILE_MAP_VOLUME : ℕ := 0
def GRUB_FILE_MAP_FS_LOGICAL : ℕ := 1
def GRUB_DISK_MAX_SECTORS : ℕ := 2 ^ 51

/-- `struct grub_file_map_storage`. -/
structure FileMapStorage where
  offset : ℕ
  length : ℕ
  addressSpace : ℕ
  deriving DecidableEq

/-- `struct grub_file_map_extent`, the storage as a list. -/
structure FileMapExtent where
  logicalOffset : ℕ
  logicalLength : ℕ
  decodedOffset : ℕ
  decodedLength : ℕ
  flags : ℕ
  storage : List FileMapStorage
  deriving DecidableEq

/-- The extent has the flag. -/
def FileMapExtent.has (e : FileMapExtent) (flag : ℕ) : Bool := e.flags &&& flag ≠ 0

/-- What the checks look at of a disk: start and length of the partitions around it, the inner one
first, and its size if that is known. -/
structure FileMapDisk where
  partitions : List (ℕ × ℕ)
  logSectorSize : ℕ
  totalSectors : Option ℕ

/-- `struct grub_file_map_context`; `hooked` is what the hook was given so far. -/
structure FileMapContext where
  start : ℕ
  stop : ℕ
  next : ℕ
  disk : Option FileMapDisk
  pending : Option FileMapExtent
  hooked : List FileMapExtent

/-- The loop of `grub_file_map_check_storage` over the partitions: the sectors on the disk. -/
def fileMapOnDisk : List (ℕ × ℕ) → ℕ → ℕ → Option (ℕ × ℕ)
  | [], first, last => some (first, last)
  | (start, len) :: parts, first, last =>
    if len ≤ last then none
    else
      match grubAdd first start, grubAdd last start with
      | some first, some last => fileMapOnDisk parts first last
      | _, _ => none

/-- `grub_file_map_check_storage`; `stop` is the end of the storage. -/
def grubFileMapCheckStorage (disk : Option FileMapDisk) (s : FileMapStorage) (stop : ℕ) :
    Option GrubError :=
  if s.addressSpace = GRUB_FILE_MAP_FS_LOGICAL then none
  else
    match disk with
    | none => some ⟨.badFs, "invalid mapping address space"⟩
    | some disk =>
      if s.addressSpace ≠ GRUB_FILE_MAP_VOLUME then
        some ⟨.badFs, "invalid mapping address space"⟩
      else
        match fileMapOnDisk disk.partitions (s.offset / 512) ((stop - 1) / 512) with
        | none => some ⟨.outOfRange, "storage mapping outside partition"⟩
        | some (_, last) =>
          if disk.logSectorSize < 9 ∨ 12 < disk.logSectorSize then
            some ⟨.badFs, "invalid mapping sector size"⟩
          else
            let shift := disk.logSectorSize - 9
            let limit := match disk.totalSectors with
              | none => GRUB_DISK_MAX_SECTORS
              | some total =>
                if total < GRUB_DISK_MAX_SECTORS / 2 ^ shift then total * 2 ^ shift
                else GRUB_DISK_MAX_SECTORS
            if limit ≤ last then some ⟨.outOfRange, "storage mapping outside disk"⟩ else none

/-- The loop of `grub_file_map_emit` over the storage. -/
def fileMapCheckAll (disk : Option FileMapDisk) : List FileMapStorage → Option GrubError
  | [] => none
  | s :: storage =>
    if s.length = 0 ∨ 2 ^ 64 ≤ s.offset + s.length then
      some ⟨.badFs, "invalid storage mapping range"⟩
    else
      match grubFileMapCheckStorage disk s (s.offset + s.length) with
      | some e => some e
      | none => fileMapCheckAll disk storage

/-- `grub_file_map_flush`. -/
def grubFileMapFlush (ctx : FileMapContext) : FileMapContext :=
  { ctx with pending := none, hooked := ctx.hooked ++ ctx.pending.toList }

/-- The clipping in `grub_file_map_emit`, from `left` on. -/
def fileMapClip (ctx : FileMapContext) (e : FileMapExtent) (left : ℕ) :
    Except GrubError FileMapExtent :=
  let delta := left - e.logicalOffset
  let length := min (e.logicalOffset + e.logicalLength) ctx.stop - left
  if e.has GRUB_FILE_MAP_DIRECT ∨ (e.has GRUB_FILE_MAP_UNWRITTEN ∧ ¬ e.has GRUB_FILE_MAP_TRANSFORMED)
  then
    match e.storage with
    | [s] =>
      if s.length < e.logicalLength then .error ⟨.badFs, "invalid direct mapping"⟩
      else if 2 ^ 64 ≤ s.offset + delta ∨ 2 ^ 64 ≤ s.offset + delta + length then
        .error ⟨.badFs, "mapping address overflow"⟩
      else .ok { e with
        logicalOffset := left
        logicalLength := length
        storage := [{ s with offset := s.offset + delta, length := length }] }
    | _ => .error ⟨.badFs, "invalid direct mapping"⟩
  else if e.has GRUB_FILE_MAP_TRANSFORMED then
    if 2 ^ 64 ≤ e.decodedOffset + delta then .error ⟨.badFs, "decoded offset overflow"⟩
    else .ok { e with
      logicalOffset := left
      logicalLength := length
      decodedOffset := e.decodedOffset + delta }
  else .ok { e with logicalOffset := left, logicalLength := length }

/-- The storage goes on where that of the pending extent ends. -/
def fileMapAdjoins : List FileMapStorage → List FileMapStorage → Bool
  | _, [] => true
  | s :: _, t :: _ => s.addressSpace = t.addressSpace ∧ s.offset + s.length = t.offset
  | [], _ :: _ => false

/-- The extent goes on where the pending one ends, in the file and on the volume. -/
def fileMapFollows (p e : FileMapExtent) : Bool :=
  p.flags = e.flags && p.logicalOffset + p.logicalLength = e.logicalOffset
    && fileMapAdjoins p.storage e.storage

/-- The end of `grub_file_map_emit`: a plain extent is joined to the pending one or takes its place,
another one goes to the hook. -/
def fileMapPass (ctx : FileMapContext) (e : FileMapExtent) : FileMapContext :=
  if e.flags = GRUB_FILE_MAP_DIRECT ∨ e.flags = GRUB_FILE_MAP_ZERO + GRUB_FILE_MAP_HOLE then
    match ctx.pending with
    | some p =>
      if fileMapFollows p e then
        { ctx with pending := some { p with
          logicalLength := p.logicalLength + e.logicalLength
          storage := p.storage.map fun s => { s with length := s.length + e.logicalLength } } }
      else { grubFileMapFlush ctx with pending := some e }
    | none => { ctx with pending := some e }
  else
    let ctx := grubFileMapFlush ctx
    { ctx with hooked := ctx.hooked ++ [e] }

/-- `grub_file_map_emit`. -/
def grubFileMapEmit (ctx : FileMapContext) (e : FileMapExtent) : Except GrubError FileMapContext :=
  let stop := e.logicalOffset + e.logicalLength
  if e.logicalLength = 0 ∨ 2 ^ 64 ≤ stop then .error ⟨.badFs, "invalid mapping range"⟩
  else if stop ≤ ctx.start ∨ ctx.stop ≤ e.logicalOffset then .ok ctx
  else
    match fileMapCheckAll ctx.disk e.storage with
    | some err => .error err
    | none =>
      if e.has GRUB_FILE_MAP_TRANSFORMED ∧ e.storage ≠ [] ∧ e.decodedLength ≠ 0
        ∧ (e.decodedLength < e.decodedOffset
          ∨ e.decodedLength - e.decodedOffset < e.logicalLength) then
        .error ⟨.badFs, "invalid decoded mapping range"⟩
      else
        let left := max e.logicalOffset ctx.start
        if left ≠ ctx.next then .error ⟨.badFs, "incomplete or overlapping mapping"⟩
        else
          match fileMapClip ctx e left with
          | .error err => .error err
          | .ok e => .ok (fileMapPass { ctx with next := left + e.logicalLength } e)

/-- The extent of `grub_file_map_simple`. -/
def fileMapSimple (offset length flags physical : ℕ) : FileMapExtent where
  logicalOffset := offset
  logicalLength := length
  decodedOffset := 0
  decodedLength := 0
  flags
  storage := if flags &&& (GRUB_FILE_MAP_DIRECT + GRUB_FILE_MAP_UNWRITTEN) ≠ 0 then
      [⟨physical, length, GRUB_FILE_MAP_VOLUME⟩]
    else []

/-- `grub_file_map_simple`. -/
def grubFileMapSimple (ctx : FileMapContext) (offset length flags physical : ℕ) :
    Except GrubError FileMapContext :=
  grubFileMapEmit ctx (fileMapSimple offset length flags physical)

/-- `grub_file_map_range` of a file of `size` bytes that `fsMapRange` maps: what the hook is given. -/
def grubFileMapRange (disk : Option FileMapDisk) (size : ℕ)
    (fsMapRange : FileMapContext → Except GrubError FileMapContext) (offset length : ℕ) :
    Except GrubError (List FileMapExtent) :=
  match grubAdd offset length with
  | none => .error ⟨.badArgument, "invalid mapping query"⟩
  | some stop =>
    if size = 2 ^ 64 - 1 then .error ⟨.notImplementedYet, "mapping requires known file size"⟩
    else
      let stop := min stop size
      if stop ≤ offset then .ok []
      else
        match fsMapRange { start := offset, stop, next := offset, disk, pending := none, hooked := [] }
          with
        | .error e => .error e
        | .ok ctx =>
          if ctx.next ≠ ctx.stop then .error ⟨.badFs, "incomplete file mapping"⟩
          else .ok (grubFileMapFlush ctx).hooked

/-! ### What the extents say -/

/-- What the extent says of the bytes of the file below `limit` is so: a direct one has them on the
volume, a zero one has zeros. -/
def FileMapExtent.ShowsBelow (volume val : Buf) (limit : ℕ) (e : FileMapExtent) : Prop :=
  ∀ i, e.logicalOffset ≤ i → i < e.logicalOffset + e.logicalLength → i < limit →
    (e.has GRUB_FILE_MAP_DIRECT → ∃ s, e.storage.head? = some s
      ∧ val i = volume (s.offset + (i - e.logicalOffset)))
    ∧ (e.has GRUB_FILE_MAP_ZERO → val i = 0)

/-- A direct extent has one storage range, as long as itself. -/
def FileMapExtent.Whole (e : FileMapExtent) : Prop :=
  e.has GRUB_FILE_MAP_DIRECT → ∃ s, e.storage = [s] ∧ s.length = e.logicalLength

/-- What came out so far. -/
def FileMapContext.extents (ctx : FileMapContext) : List FileMapExtent :=
  ctx.hooked ++ ctx.pending.toList

/-- What came out so far shows the file, and covers it up to where the mapping is. -/
structure FileMapGood (volume val : Buf) (ctx : FileMapContext) : Prop where
  start_lt : ctx.start < ctx.stop
  shows : ∀ e ∈ ctx.extents, e.ShowsBelow volume val ctx.stop
  covers : ∀ i, ctx.start ≤ i → i < ctx.next →
    ∃ e ∈ ctx.extents, e.logicalOffset ≤ i ∧ i < e.logicalOffset + e.logicalLength
  whole : ∀ p, ctx.pending = some p → p.Whole

/-- The query is the same. -/
structure FileMapContext.Same (ctx ctx' : FileMapContext) : Prop where
  start : ctx'.start = ctx.start
  stop : ctx'.stop = ctx.stop

theorem FileMapContext.Same.refl (ctx : FileMapContext) : ctx.Same ctx := ⟨rfl, rfl⟩

theorem FileMapContext.Same.trans {a b c : FileMapContext} (h : a.Same b) (h' : b.Same c) :
    a.Same c := ⟨h'.start.trans h.start, h'.stop.trans h.stop⟩

section Emit

variable {volume val : Buf} {ctx ctx' : FileMapContext} {e c p : FileMapExtent}

theorem fileMapClip_spec {left : ℕ} (hclip : fileMapClip ctx e left = .ok c)
    (hleft : e.logicalOffset ≤ left)
    (hlt : left < min (e.logicalOffset + e.logicalLength) ctx.stop)
    (hshows : e.ShowsBelow volume val ctx.stop) :
    c.logicalOffset = left
      ∧ c.logicalLength = min (e.logicalOffset + e.logicalLength) ctx.stop - left
      ∧ c.ShowsBelow volume val ctx.stop ∧ c.Whole := by
  have hzero : ∀ {i}, left ≤ i → i < left + (min (e.logicalOffset + e.logicalLength) ctx.stop - left)
      → i < ctx.stop → (e.has GRUB_FILE_MAP_ZERO → val i = 0) := fun hi hi' hstop =>
    (hshows _ (by omega) (by omega) hstop).2
  rw [fileMapClip] at hclip
  split_ifs at hclip with hdirect htransformed hover
  · cases hs : e.storage with
    | nil =>
      rw [hs] at hclip
      cases hclip
    | cons s rest =>
      cases rest with
      | cons t rest =>
        rw [hs] at hclip
        cases hclip
      | nil =>
        rw [hs] at hclip
        simp only at hclip
        by_cases hshort : s.length < e.logicalLength
        · rw [if_pos hshort] at hclip
          cases hclip
        rw [if_neg hshort] at hclip
        by_cases hover : 2 ^ 64 ≤ s.offset + (left - e.logicalOffset) ∨ 2 ^ 64 ≤ s.offset
            + (left - e.logicalOffset)
            + (min (e.logicalOffset + e.logicalLength) ctx.stop - left)
        · rw [if_pos hover] at hclip
          cases hclip
        rw [if_neg hover] at hclip
        obtain rfl := Except.ok.inj hclip
        refine ⟨rfl, rfl, fun i hi hi' hstop => ⟨fun hhas => ⟨_, rfl, ?_⟩, hzero hi hi' hstop⟩,
          fun _ => ⟨_, rfl, rfl⟩⟩
        simp only at hi hi'
        obtain ⟨t, ht, hval⟩ := (hshows i (by omega) (by omega) hstop).1 hhas
        rw [hs] at ht
        obtain rfl := Option.some.inj ht
        rw [hval, show s.offset + (left - e.logicalOffset) + (i - left)
          = s.offset + (i - e.logicalOffset) by omega]
  · have hnot : ¬ e.has GRUB_FILE_MAP_DIRECT = true := fun h => hdirect (.inl h)
    obtain rfl := Except.ok.inj hclip
    exact ⟨rfl, rfl, fun i hi hi' hstop => ⟨fun h => absurd h hnot, hzero hi hi' hstop⟩,
      fun h => absurd h hnot⟩
  · have hnot : ¬ e.has GRUB_FILE_MAP_DIRECT = true := fun h => hdirect (.inl h)
    obtain rfl := Except.ok.inj hclip
    exact ⟨rfl, rfl, fun i hi hi' hstop => ⟨fun h => absurd h hnot, hzero hi hi' hstop⟩,
      fun h => absurd h hnot⟩

theorem fileMapClip_length {left : ℕ} (hclip : fileMapClip ctx e left = .ok c) :
    c.logicalLength = min (e.logicalOffset + e.logicalLength) ctx.stop - left := by
  rw [fileMapClip] at hclip
  split_ifs at hclip with hdirect htransformed hover
  · cases hs : e.storage with
    | nil =>
      rw [hs] at hclip
      cases hclip
    | cons s rest =>
      cases rest with
      | cons t rest =>
        rw [hs] at hclip
        cases hclip
      | nil =>
        rw [hs] at hclip
        simp only at hclip
        split_ifs at hclip
        obtain rfl := Except.ok.inj hclip
        rfl
  · obtain rfl := Except.ok.inj hclip
    rfl
  · obtain rfl := Except.ok.inj hclip
    rfl

/-- Two plain extents that follow each other say together what they say apart. -/
theorem FileMapExtent.ShowsBelow.join {limit : ℕ} (hp : p.ShowsBelow volume val limit)
    (he : e.ShowsBelow volume val limit) (hpw : p.Whole) (hew : e.Whole)
    (hfollows : fileMapFollows p e = true) :
    ({ p with
        logicalLength := p.logicalLength + e.logicalLength
        storage := p.storage.map fun s => { s with length := s.length + e.logicalLength } } :
        FileMapExtent).ShowsBelow volume val limit
      ∧ ({ p with
        logicalLength := p.logicalLength + e.logicalLength
        storage := p.storage.map fun s => { s with length := s.length + e.logicalLength } } :
        FileMapExtent).Whole := by
  rw [fileMapFollows, Bool.and_eq_true, Bool.and_eq_true, decide_eq_true_eq, decide_eq_true_eq]
    at hfollows
  obtain ⟨⟨hflags, hend⟩, hstorage⟩ := hfollows
  have hhas : ∀ flag, p.has flag = e.has flag := fun flag => by
    rw [FileMapExtent.has, FileMapExtent.has, hflags]
  refine ⟨fun i hi hi' hlimit => ?_, fun hdirect => ?_⟩
  · simp only at hi hi'
    by_cases hin : i < p.logicalOffset + p.logicalLength
    · obtain ⟨hdirect, hzero⟩ := hp i hi hin hlimit
      refine ⟨fun h => ?_, hzero⟩
      obtain ⟨s, hs, hval⟩ := hdirect h
      refine ⟨{ s with length := s.length + e.logicalLength }, ?_, hval⟩
      simp only [List.head?_map, hs, Option.map_some]
    · obtain ⟨hdirect, hzero⟩ := he i (by omega) (by omega) hlimit
      refine ⟨fun h => ?_, fun h => hzero ((hhas _).symm.trans h)⟩
      obtain ⟨s, hs, hlen⟩ := hpw h
      obtain ⟨t, ht, -⟩ := hew ((hhas _).symm.trans h)
      obtain ⟨t', ht', hval⟩ := hdirect ((hhas _).symm.trans h)
      rw [ht] at ht'
      obtain rfl := Option.some.inj ht'
      rw [hs, ht, fileMapAdjoins, decide_eq_true_eq] at hstorage
      refine ⟨{ s with length := s.length + e.logicalLength }, ?_, ?_⟩
      · simp only [List.head?_map, hs, List.head?_cons, Option.map_some]
      · rw [hval]
        simp only
        rw [← hstorage.2, show s.offset + s.length + (i - e.logicalOffset)
          = s.offset + (i - p.logicalOffset) by omega]
  · obtain ⟨s, hs, hlen⟩ := hpw hdirect
    refine ⟨{ s with length := s.length + e.logicalLength }, ?_, ?_⟩
    · simp only [hs, List.map_cons, List.map_nil]
    · simp only [hlen]

theorem FileMapGood.pass (h : FileMapGood volume val ctx) (hshows : e.ShowsBelow volume val ctx.stop)
    (hwhole : e.Whole) (hnext : e.logicalOffset ≤ ctx.next) :
    FileMapGood volume val (fileMapPass { ctx with next := e.logicalOffset + e.logicalLength } e)
      ∧ ctx.Same (fileMapPass { ctx with next := e.logicalOffset + e.logicalLength } e) := by
  have hall : ∀ x ∈ ctx.extents ++ [e], x.ShowsBelow volume val ctx.stop := by
    intro x hx
    rcases List.mem_append.mp hx with hx | hx
    · exact h.shows x hx
    · rw [List.mem_singleton.mp hx]
      exact hshows
  have hcover : ∀ i, ctx.start ≤ i → i < e.logicalOffset + e.logicalLength →
      ∃ x ∈ ctx.extents ++ [e], x.logicalOffset ≤ i ∧ i < x.logicalOffset + x.logicalLength := by
    intro i hi hi'
    by_cases hold : i < ctx.next
    · obtain ⟨x, hx, hin⟩ := h.covers i hi hold
      exact ⟨x, List.mem_append_left _ hx, hin⟩
    · exact ⟨e, List.mem_append_right _ List.mem_cons_self, by omega, hi'⟩
  rw [fileMapPass]
  split_ifs with hplain
  · cases hp : ctx.pending with
    | none =>
      have hext : ctx.hooked ++ [e] = ctx.extents ++ [e] := by
        rw [FileMapContext.extents, hp, Option.toList_none, List.append_nil]
      refine ⟨⟨h.start_lt, fun x hx => hall x (by rw [← hext]; exact hx), fun i hi hi' => ?_, fun q hq => ?_⟩, ⟨rfl, rfl⟩⟩
      · obtain ⟨x, hx, hin⟩ := hcover i hi hi'
        exact ⟨x, by rw [← hext] at hx; exact hx, hin⟩
      · obtain rfl := Option.some.inj hq
        exact hwhole
    | some p =>
      have hpmem : p ∈ ctx.extents := by
        rw [FileMapContext.extents, hp]
        exact List.mem_append_right _ List.mem_cons_self
      have hext : ctx.extents = ctx.hooked ++ [p] := by
        rw [FileMapContext.extents, hp, Option.toList_some]
      by_cases hfollows : fileMapFollows p e = true
      · simp only [if_pos hfollows]
        obtain ⟨hjoin, hjoinWhole⟩ := (h.shows p hpmem).join hshows (h.whole p hp) hwhole hfollows
        rw [fileMapFollows, Bool.and_eq_true, Bool.and_eq_true, decide_eq_true_eq,
          decide_eq_true_eq] at hfollows
        refine ⟨⟨h.start_lt, fun x hx => ?_, fun i hi hi' => ?_, fun q hq => ?_⟩, ⟨rfl, rfl⟩⟩
        · rcases List.mem_append.mp hx with hx | hx
          · exact h.shows x (hext ▸ List.mem_append_left _ hx)
          · rw [List.mem_singleton.mp hx]
            exact hjoin
        · obtain ⟨x, hx, hlow, hhigh⟩ := hcover i hi hi'
          rw [hext, List.append_assoc] at hx
          rcases List.mem_append.mp hx with hx | hx
          · exact ⟨x, List.mem_append_left _ hx, hlow, hhigh⟩
          refine ⟨_, List.mem_append_right _ List.mem_cons_self, ?_, ?_⟩
          · rcases List.mem_cons.mp hx with rfl | hx
            · exact hlow
            · rw [List.mem_singleton.mp hx] at hlow
              simp only
              omega
          · rcases List.mem_cons.mp hx with rfl | hx
            · simp only
              omega
            · rw [List.mem_singleton.mp hx] at hhigh
              simp only
              omega
        · obtain rfl := Option.some.inj hq
          exact hjoinWhole
      · simp only [if_neg hfollows]
        have hflush : (grubFileMapFlush { ctx with
            next := e.logicalOffset + e.logicalLength
            pending := some p }).hooked ++ [e] = ctx.extents ++ [e] := by
          rw [hext]
          rfl
        refine ⟨⟨h.start_lt, fun x hx => hall x (by rw [← hflush]; exact hx), fun i hi hi' => ?_, fun q hq => ?_⟩, ⟨rfl, rfl⟩⟩
        · obtain ⟨x, hx, hin⟩ := hcover i hi hi'
          exact ⟨x, by rw [← hflush] at hx; exact hx, hin⟩
        · obtain rfl := Option.some.inj hq
          exact hwhole
  · have hflush : (grubFileMapFlush { ctx with
        next := e.logicalOffset + e.logicalLength }).hooked ++ [e] ++ [] = ctx.extents ++ [e] :=
      List.append_nil _
    refine ⟨⟨h.start_lt, fun x hx => hall x (by rw [← hflush]; exact hx), fun i hi hi' => ?_, fun q hq => by cases hq⟩,
      ⟨rfl, rfl⟩⟩
    obtain ⟨x, hx, hin⟩ := hcover i hi hi'
    exact ⟨x, by rw [← hflush] at hx; exact hx, hin⟩

/-- An extent that shows the file is handed over. -/
theorem FileMapGood.emit (h : FileMapGood volume val ctx)
    (hemit : grubFileMapEmit ctx e = .ok ctx') (hshows : e.ShowsBelow volume val ctx.stop) :
    FileMapGood volume val ctx' ∧ ctx.Same ctx' := by
  rw [grubFileMapEmit] at hemit
  cases hcheck : fileMapCheckAll ctx.disk e.storage with
  | some err =>
    rw [hcheck] at hemit
    simp only at hemit
    split_ifs at hemit
    obtain rfl := Except.ok.inj hemit
    exact ⟨h, .refl ctx⟩
  | none =>
    cases hclip : fileMapClip ctx e (max e.logicalOffset ctx.start) with
    | error err =>
      simp only [hcheck, hclip] at hemit
      split_ifs at hemit
      obtain rfl := Except.ok.inj hemit
      exact ⟨h, .refl ctx⟩
    | ok c =>
      simp only [hcheck, hclip] at hemit
      split_ifs at hemit with hrange hout hdecoded hleft
      · obtain rfl := Except.ok.inj hemit
        exact ⟨h, .refl ctx⟩
      obtain rfl := Except.ok.inj hemit
      rw [not_not] at hleft
      have hlt : max e.logicalOffset ctx.start
          < min (e.logicalOffset + e.logicalLength) ctx.stop := by
        have hstart := h.start_lt
        omega
      obtain ⟨hoff, hlen, hshows', hwhole⟩ := fileMapClip_spec hclip (Nat.le_max_left _ _) hlt hshows
      rw [← hoff]
      exact h.pass hshows' hwhole (by omega)

/-- The mapping gets no further than the end of the extent. -/
theorem grubFileMapEmit_next (hemit : grubFileMapEmit ctx e = .ok ctx') :
    ctx'.next ≤ max ctx.next (e.logicalOffset + e.logicalLength) := by
  rw [grubFileMapEmit] at hemit
  cases hcheck : fileMapCheckAll ctx.disk e.storage with
  | some err =>
    rw [hcheck] at hemit
    simp only at hemit
    split_ifs at hemit
    obtain rfl := Except.ok.inj hemit
    exact Nat.le_max_left _ _
  | none =>
    cases hclip : fileMapClip ctx e (max e.logicalOffset ctx.start) with
    | error err =>
      simp only [hcheck, hclip] at hemit
      split_ifs at hemit
      obtain rfl := Except.ok.inj hemit
      exact Nat.le_max_left _ _
    | ok c =>
      simp only [hcheck, hclip] at hemit
      split_ifs at hemit with hrange hout hdecoded hleft
      · obtain rfl := Except.ok.inj hemit
        exact Nat.le_max_left _ _
      obtain rfl := Except.ok.inj hemit
      have hnext : (fileMapPass { ctx with
          next := max e.logicalOffset ctx.start + c.logicalLength } c).next
          = max e.logicalOffset ctx.start + c.logicalLength := by
        rw [fileMapPass]
        split_ifs
        · cases ctx.pending with
          | none => rfl
          | some p =>
            simp only
            split_ifs <;> rfl
        · rfl
      have hlen : c.logicalLength = min (e.logicalOffset + e.logicalLength) ctx.stop
          - max e.logicalOffset ctx.start :=
        fileMapClip_length hclip
      rw [hnext, hlen]
      omega

end Emit

/-- Every byte of a file of `size` bytes is in an extent, and what the extents say is so. -/
structure FileMapShows (volume val : Buf) (size : ℕ) (extents : List FileMapExtent) : Prop where
  shows : ∀ e ∈ extents, e.ShowsBelow volume val size
  covers : ∀ i < size, ∃ e ∈ extents, e.logicalOffset ≤ i ∧ i < e.logicalOffset + e.logicalLength

/-- The map of a whole file is a run of the driver up to the end of the file. -/
theorem grubFileMapRange_run {disk : Option FileMapDisk} {size length : ℕ}
    {fsMapRange : FileMapContext → Except GrubError FileMapContext} {extents : List FileMapExtent}
    (hlength : size ≤ length)
    (hmap : grubFileMapRange disk size fsMapRange 0 length = .ok extents) :
    (size = 0 ∧ extents = []) ∨ ∃ ctx, 0 < size
      ∧ fsMapRange { start := 0, stop := size, next := 0, disk, pending := none, hooked := [] }
        = .ok ctx ∧ ctx.next = ctx.stop ∧ extents = ctx.extents := by
  rw [grubFileMapRange, grubAdd] at hmap
  by_cases hadd : 0 + length < 2 ^ 64
  swap
  · rw [if_neg hadd] at hmap
    cases hmap
  rw [if_pos hadd] at hmap
  simp only [Nat.zero_add, Nat.min_eq_right hlength] at hmap
  by_cases hunknown : size = 2 ^ 64 - 1
  · rw [if_pos hunknown] at hmap
    cases hmap
  rw [if_neg hunknown] at hmap
  by_cases hempty : size ≤ 0
  · rw [if_pos hempty] at hmap
    obtain rfl := Except.ok.inj hmap
    exact .inl ⟨Nat.le_zero.mp hempty, rfl⟩
  rw [if_neg hempty] at hmap
  cases hrun : fsMapRange { start := 0, stop := size, next := 0, disk, pending := none, hooked := [] }
    with
  | error e =>
    rw [hrun] at hmap
    cases hmap
  | ok ctx =>
    rw [hrun] at hmap
    simp only at hmap
    split_ifs at hmap with hnext
    exact .inr ⟨ctx, Nat.not_le.mp hempty, rfl, not_not.mp hnext, (Except.ok.inj hmap).symm⟩

/-- The map of a whole file whose driver hands over what the file is. -/
theorem grubFileMapRange_shows {volume val : Buf} {disk : Option FileMapDisk} {size length : ℕ}
    {fsMapRange : FileMapContext → Except GrubError FileMapContext} {extents : List FileMapExtent}
    (hfs : ∀ ctx ctx', FileMapGood volume val ctx → ctx.start = 0 → ctx.stop = size →
      fsMapRange ctx = .ok ctx' → FileMapGood volume val ctx' ∧ ctx.Same ctx')
    (hlength : size ≤ length)
    (hmap : grubFileMapRange disk size fsMapRange 0 length = .ok extents) :
    FileMapShows volume val size extents := by
  obtain ⟨rfl, rfl⟩ | ⟨ctx, hpos, hrun, hnext, rfl⟩ := grubFileMapRange_run hlength hmap
  · exact ⟨(fun e he => by cases he), fun i hi => absurd hi (Nat.not_lt_zero i)⟩
  obtain ⟨hgood, hsame⟩ := hfs _ _ ⟨hpos, (fun e he => by cases he),
    fun i hi hi' => absurd hi' (Nat.not_lt_zero i), (fun p hp => by cases hp)⟩ rfl rfl hrun
  have hstop : ctx.stop = size := hsame.stop
  refine ⟨fun e he => hstop ▸ hgood.shows e he, fun i hi => ?_⟩
  exact hgood.covers i (hsame.start ▸ Nat.zero_le i) (by omega)

end FsRover
