import FsRover.Grub
import FsRover.Lib.Guards
import Mathlib.Logic.Function.Basic

/-!
# YAFFS images

`yaffs.c` reads an image of the pages of a flash. Every page has tags that name an object and a
chunk of it; chunk zero is the header of the object. The newest header and the newest copy of every
chunk are kept. Names are kept as they are stored.

## Main definitions

* `FsRover.YaffsGeometry`, `FsRover.yaffsParseTags`, `FsRover.yaffsParseHeader` : one page.
-/

namespace FsRover

open Guards

def YAFFS_OBJECTID_ROOT : ℕ := 1
def YAFFS_OBJECTID_LOSTNFOUND : ℕ := 2
def YAFFS_OBJECTID_UNLINKED : ℕ := 3
def YAFFS_OBJECTID_DELETED : ℕ := 4
def YAFFS_OBJECTID_SUMMARY : ℕ := 0x10
def YAFFS_OBJECTID_CHECKPOINT : ℕ := 0x20
def YAFFS_SEQUENCE_CHECKPOINT : ℕ := 0x21
def YAFFS_SEQUENCE_LOWEST : ℕ := 0x1000
def YAFFS_SEQUENCE_HIGHEST : ℕ := 0xefffff00
def YAFFS_SEQUENCE_BAD_BLOCK : ℕ := 0xffff0000
def YAFFS_OBJECT_MAX : ℕ := 0x3ffff
def YAFFS_CHUNK_MAX : ℕ := 0xfffffff
def YAFFS_NAME_MAX : ℕ := 255
def YAFFS_ALIAS_MAX : ℕ := 159
def YAFFS_OBJECT_BUCKETS : ℕ := 257
def YAFFS_DETECT_PAGES : ℕ := 4096
def YAFFS_TYPE_UNKNOWN : ℕ := 0
def YAFFS_TYPE_FILE : ℕ := 1
def YAFFS_TYPE_SYMLINK : ℕ := 2
def YAFFS_TYPE_DIRECTORY : ℕ := 3
def YAFFS_TYPE_HARDLINK : ℕ := 4
def YAFFS_TYPE_SPECIAL : ℕ := 5
def YAFFS_OH_SIZE : ℕ := 512

/-- `struct grub_yaffs_geometry`. -/
structure YaffsGeometry where
  dataSize : ℕ
  recordSize : ℕ
  tagsOffset : ℕ
  tagsSize : ℕ
  version : ℕ
  bigEndian : Bool
  inband : Bool
  tagsBigEndian : Bool

/-- `struct grub_yaffs_tags`. -/
structure YaffsTags where
  sequence : ℕ := 0
  object : ℕ := 0
  chunk : ℕ := 0
  bytes : ℕ := 0
  extraParent : ℕ := 0
  extraType : ℕ := 0
  extraEquiv : ℕ := 0
  serial : ℕ := 0
  used : Bool := false
  deleted : Bool := false
  extra : Bool := false
  shrink : Bool := false
  shadows : Bool := false

/-- `struct grub_yaffs_chunk`. -/
structure YaffsChunk where
  page : ℕ
  logical : ℕ
  bytes : ℕ
  sequence : ℕ
  serial : ℕ
  deriving DecidableEq

/-- `struct grub_yaffs_object`. -/
structure YaffsObject where
  id : ℕ
  chunks : List YaffsChunk := []
  name : List UInt8 := []
  aliasName : List UInt8 := []
  headerPage : ℕ := 0
  size : ℕ := 0
  parent : ℕ := 0
  type : ℕ := 0
  mode : ℕ := 0
  mtime : ℕ := 0
  equivalent : ℕ := 0
  shadows : ℕ := 0
  headerSequence : ℕ := 0
  headerSerial : ℕ := 0
  valid : Bool := false
  shadowed : Bool := false
  synthetic : Bool := false

/-- `struct grub_yaffs_data`; the cursor of an open file is `YaffsCursor`. -/
structure YaffsData where
  disk : SizedDisk
  diskSize : ℕ
  pages : ℕ
  geometry : YaffsGeometry
  objects : ℕ → List YaffsObject
  objectCount : ℕ
  headerCount : ℕ

/-- `struct grub_yaffs_header`. -/
structure YaffsHeader where
  type : ℕ
  parent : ℕ
  mode : ℕ
  mtime : ℕ
  equivalent : ℕ
  shadows : ℕ
  isShrink : ℕ
  size : ℕ
  name : List UInt8
  aliasName : List UInt8

/-- `yaffs_geometries`. -/
def yaffsGeometries : List YaffsGeometry :=
  [⟨2048, 2112, 2048, 28, 2, false, false, false⟩, ⟨2048, 2076, 2048, 28, 2, false, false, false⟩,
    ⟨2048, 2064, 2048, 16, 2, false, false, false⟩, ⟨2032, 2048, 2032, 16, 2, false, true, false⟩,
    ⟨1024, 1056, 1024, 28, 2, false, false, false⟩, ⟨1024, 1052, 1024, 28, 2, false, false, false⟩,
    ⟨1024, 1040, 1024, 16, 2, false, false, false⟩, ⟨1008, 1024, 1008, 16, 2, false, true, false⟩,
    ⟨4096, 4224, 4096, 28, 2, false, false, false⟩, ⟨4096, 4124, 4096, 28, 2, false, false, false⟩,
    ⟨4096, 4112, 4096, 16, 2, false, false, false⟩, ⟨4080, 4096, 4080, 16, 2, false, true, false⟩,
    ⟨8192, 8448, 8192, 28, 2, false, false, false⟩, ⟨8192, 8220, 8192, 28, 2, false, false, false⟩,
    ⟨8192, 8208, 8192, 16, 2, false, false, false⟩, ⟨8176, 8192, 8176, 16, 2, false, true, false⟩,
    ⟨512, 528, 512, 16, 1, false, false, false⟩]

/-- `yaffs_get_u32`. -/
def yaffsGetU32 (p : Buf) (i : ℕ) (bigEndian : Bool) : ℕ :=
  if bigEndian then lostBe32 p i else lostLe32 p i

/-- `yaffs_disk_read`. -/
def yaffsDiskRead (disk : SizedDisk) (diskSize offset length : ℕ) : Except GrubError Buf := do
  refuseIf (diskSize < offset ∨ diskSize - offset < length) ⟨.badFs, "YAFFS read outside device"⟩
  disk.read offset length

/-- `yaffs_all_ff`. -/
def yaffsAllFf (p : Buf) (length : ℕ) : Bool := (p.list 0 length).all (· = 0xff)

/-! ### Tags and headers -/

/-- The tags before they are checked by `yaffs_parse_tags2`; the flags are the top bits of the chunk,
and the type the top four of the object. -/
def yaffsRawTags2 (g : YaffsGeometry) (raw : Buf) : YaffsTags :=
  let sequence := yaffsGetU32 raw 0 g.tagsBigEndian
  let rawObject := yaffsGetU32 raw 4 g.tagsBigEndian
  let rawChunk := yaffsGetU32 raw 8 g.tagsBigEndian
  let bytes := yaffsGetU32 raw 12 g.tagsBigEndian
  if rawChunk / 2 ^ 31 % 2 = 1 then
    { sequence, used := true, extra := true, chunk := 0, extraParent := rawChunk % 2 ^ 28,
      shrink := rawChunk / 2 ^ 30 % 2 = 1, shadows := rawChunk / 2 ^ 29 % 2 = 1,
      extraType := rawObject / 2 ^ 28, object := rawObject % 2 ^ 28,
      extraEquiv := if rawObject / 2 ^ 28 = YAFFS_TYPE_HARDLINK then bytes else 0, bytes := 0 }
  else { sequence, used := true, object := rawObject, chunk := rawChunk, bytes }

/-- `yaffs_parse_tags2`; there are no tags where the source returns zero. -/
def yaffsParseTags2 (g : YaffsGeometry) (raw : Buf) : Option YaffsTags :=
  if yaffsAllFf raw 16 then some {}
  else
    let tags := yaffsRawTags2 g raw
    if tags.sequence = YAFFS_SEQUENCE_CHECKPOINT ∨ tags.sequence = YAFFS_SEQUENCE_BAD_BLOCK then
      some tags
    else if tags.sequence < YAFFS_SEQUENCE_LOWEST ∨ YAFFS_SEQUENCE_HIGHEST ≤ tags.sequence
        ∨ tags.object = 0 ∨ YAFFS_OBJECT_MAX < tags.object ∨ YAFFS_CHUNK_MAX < tags.chunk
        ∨ (tags.chunk ≠ 0 ∧ g.dataSize < tags.bytes)
        ∨ (tags.extra = true ∧ (YAFFS_OBJECT_MAX < tags.extraParent
          ∨ tags.extraType = YAFFS_TYPE_UNKNOWN ∨ YAFFS_TYPE_SPECIAL < tags.extraType)) then none
    else some tags

/-- `yaffs_parse_tags1`. -/
def yaffsParseTags1 (spare : Buf) : Option YaffsTags :=
  if yaffsAllFf spare 16 then some {}
  else if spare 4 ≠ 0xff then some { deleted := true }
  else
    let packed : Buf := fun i =>
      [spare 0, spare 1, spare 2, spare 3, spare 6, spare 7, spare 11, spare 12].getD i 0
    let word0 := lostLe32 packed 0
    let word1 := lostLe32 packed 4
    let tags : YaffsTags :=
      { chunk := word0 % 2 ^ 20, serial := word0 / 2 ^ 20 % 4, bytes := word0 / 2 ^ 22 % 2 ^ 10,
        object := word1 % 2 ^ 18, used := true }
    if tags.object = 0 ∨ YAFFS_OBJECT_MAX < tags.object ∨ YAFFS_CHUNK_MAX < tags.chunk
        ∨ (tags.chunk ≠ 0 ∧ 512 < tags.bytes) then none
    else some tags

/-- `yaffs_parse_tags`. -/
def yaffsParseTags (g : YaffsGeometry) (raw : Buf) : Option YaffsTags :=
  if g.version = 1 then yaffsParseTags1 raw else yaffsParseTags2 g raw

/-- `yaffs_name_valid`. -/
def yaffsNameValid (name : List UInt8) : Bool :=
  name ≠ [] && name.all fun c => c ≠ 0x2f && 0x20 ≤ c && c ≠ 0x7f

/-- `yaffs_parse_header`. A name ends at its first zero byte, or there is no header. -/
def yaffsParseHeader (g : YaffsGeometry) (raw : Buf) (object : ℕ) : Option YaffsHeader :=
  let type := yaffsGetU32 raw 0 g.bigEndian
  let parent := yaffsGetU32 raw 4 g.bigEndian
  let equivalent := yaffsGetU32 raw 296 g.bigEndian
  let shadows := yaffsGetU32 raw (if g.inband then 488 else 504) g.bigEndian
  let isShrink := yaffsGetU32 raw (if g.inband then 492 else 508) g.bigEndian
  let high := yaffsGetU32 raw 496 g.bigEndian
  let low := yaffsGetU32 raw 292 g.bigEndian
  let size := if high ≠ 0xffffffff then low + 2 ^ 32 * high else low
  let name := (raw.list 10 (YAFFS_NAME_MAX + 1)).takeWhile (· ≠ 0)
  let aliasName :=
    if type = YAFFS_TYPE_SYMLINK then (raw.list 300 (YAFFS_ALIAS_MAX + 1)).takeWhile (· ≠ 0) else []
  if YAFFS_NAME_MAX < name.length then none
  else if YAFFS_ALIAS_MAX < aliasName.length then none
  else if type = YAFFS_TYPE_UNKNOWN ∨ YAFFS_TYPE_SPECIAL < type ∨ YAFFS_OBJECT_MAX < parent
      ∨ (object ≠ YAFFS_OBJECTID_ROOT ∧ (yaffsNameValid name = false ∨ parent = 0))
      ∨ (type = YAFFS_TYPE_SYMLINK ∧ aliasName = [])
      ∨ (type = YAFFS_TYPE_HARDLINK ∧ (equivalent = 0 ∨ YAFFS_OBJECT_MAX < equivalent)) then none
  else
    some
      { type, parent, mode := yaffsGetU32 raw 268 g.bigEndian,
        mtime := yaffsGetU32 raw 284 g.bigEndian, equivalent, shadows, isShrink, size, name, aliasName }

/-- `yaffs_header_matches_tags`. -/
def yaffsHeaderMatchesTags (tags : YaffsTags) (header : YaffsHeader) : Bool :=
  !tags.extra || (tags.extraType = header.type && tags.extraParent = header.parent
    && (header.type ≠ YAFFS_TYPE_HARDLINK || tags.extraEquiv = header.equivalent))

/-- The pages that both the detection and the scan pass over. -/
def yaffsSkips (tags : YaffsTags) : Bool :=
  !tags.used || tags.deleted || tags.sequence = YAFFS_SEQUENCE_CHECKPOINT
    || tags.sequence = YAFFS_SEQUENCE_BAD_BLOCK || tags.object = YAFFS_OBJECTID_SUMMARY
    || tags.object = YAFFS_OBJECTID_CHECKPOINT

/-! ### Detection -/

/-- What `yaffs_try_geometry` counts. -/
structure YaffsScore where
  validTags : ℕ := 0
  validHeaders : ℕ := 0
  invalid : ℕ := 0

/-- One round of the loop of `yaffs_try_geometry`. -/
def yaffsTryPage (disk : SizedDisk) (diskSize : ℕ) (g : YaffsGeometry) (score : YaffsScore)
    (page : ℕ) : Except GrubError YaffsScore := do
  let raw ← yaffsDiskRead disk diskSize (page * g.recordSize + g.tagsOffset) g.tagsSize
  match yaffsParseTags g raw with
  | none => .ok { score with invalid := score.invalid + 1 }
  | some tags =>
    if yaffsSkips tags then .ok score
    else
      let score := { score with validTags := score.validTags + 1 }
      if tags.chunk ≠ 0 then .ok score
      else
        let raw ← yaffsDiskRead disk diskSize (page * g.recordSize) YAFFS_OH_SIZE
        match yaffsParseHeader g raw tags.object with
        | none => .ok { score with invalid := score.invalid + 1 }
        | some header =>
          if yaffsHeaderMatchesTags tags header then
            .ok { score with validHeaders := score.validHeaders + 1 }
          else .ok { score with invalid := score.invalid + 1 }

/-- `yaffs_try_geometry`; a negative score loses against the best one from the start. -/
def yaffsTryGeometry (disk : SizedDisk) (diskSize : ℕ) (g : YaffsGeometry) : ℤ :=
  if diskSize < g.recordSize ∨ 512 ≤ diskSize % g.recordSize then -1
  else
    match (List.range (min (diskSize / g.recordSize) YAFFS_DETECT_PAGES)).foldlM
      (yaffsTryPage disk diskSize g) {} with
    | .error _ => -1
    | .ok score =>
      if score.validHeaders = 0 ∨ score.validTags = 0 then -1
      else (score.validHeaders : ℤ) * 32 + score.validTags - score.invalid * 4

/-- The geometries in both byte orders of the headers and of the tags. -/
def yaffsCandidates : List YaffsGeometry :=
  yaffsGeometries.flatMap fun g =>
    if g.version = 2 then
      [{ g with bigEndian := false, tagsBigEndian := false },
        { g with bigEndian := true, tagsBigEndian := false },
        { g with bigEndian := false, tagsBigEndian := true },
        { g with bigEndian := true, tagsBigEndian := true }]
    else [{ g with bigEndian := false, tagsBigEndian := false }]

/-- One round of `yaffs_detect_geometry`. -/
def yaffsBetterGeometry (disk : SizedDisk) (diskSize : ℕ) (best : ℤ × Option YaffsGeometry)
    (g : YaffsGeometry) : ℤ × Option YaffsGeometry :=
  let score := yaffsTryGeometry disk diskSize g
  if best.1 < score then (score, some g) else best

/-- `yaffs_detect_geometry`. -/
def yaffsDetectGeometry (disk : SizedDisk) (diskSize : ℕ) : Option YaffsGeometry :=
  (yaffsCandidates.foldl (yaffsBetterGeometry disk diskSize) (-1, none)).2

/-! ### Objects -/

/-- `yaffs_find_object`. -/
def YaffsData.findObject (data : YaffsData) (id : ℕ) : Option YaffsObject :=
  (data.objects (id % YAFFS_OBJECT_BUCKETS)).find? (·.id = id)

/-- Change the object with this id in its bucket. -/
def YaffsData.modifyObject (data : YaffsData) (id : ℕ) (f : YaffsObject → YaffsObject) :
    YaffsData :=
  let bucket := (data.objects (id % YAFFS_OBJECT_BUCKETS)).map fun o => if o.id = id then f o else o
  { data with objects := Function.update data.objects (id % YAFFS_OBJECT_BUCKETS) bucket }

/-- `yaffs_get_object`: the object is there afterwards. -/
def YaffsData.getObject (data : YaffsData) (id : ℕ) : YaffsData :=
  match data.findObject id with
  | some _ => data
  | none =>
    let bucket := { id } :: data.objects (id % YAFFS_OBJECT_BUCKETS)
    { data with
      objects := Function.update data.objects (id % YAFFS_OBJECT_BUCKETS) bucket
      objectCount := data.objectCount + 1 }

/-- The ids of all objects, bucket by bucket. -/
def YaffsData.ids (data : YaffsData) : List ℕ :=
  (List.range YAFFS_OBJECT_BUCKETS).flatMap fun i => (data.objects i).map (·.id)

/-- `yaffs_newer`. -/
def yaffsNewer (g : YaffsGeometry) (oldSequence oldPage oldSerial sequence page serial : ℕ) : Bool :=
  if g.version = 1 then (oldSerial + 1) % 4 = serial
  else if sequence ≠ oldSequence then oldSequence < sequence
  else oldPage < page

/-- `yaffs_set_header`, for the object. -/
def yaffsSetHeader (g : YaffsGeometry) (tags : YaffsTags) (header : YaffsHeader) (page : ℕ)
    (o : YaffsObject) : YaffsObject :=
  if o.valid = true ∧ yaffsNewer g o.headerSequence o.headerPage o.headerSerial tags.sequence page
      tags.serial = false then o
  else
    { o with
      name := if o.id = YAFFS_OBJECTID_ROOT then [] else header.name
      aliasName := header.aliasName
      parent := header.parent
      type := header.type
      mode := header.mode
      mtime := header.mtime
      size := header.size
      equivalent := header.equivalent
      shadows := header.shadows
      headerSequence := tags.sequence
      headerPage := page
      headerSerial := tags.serial
      valid := true
      synthetic := false }

/-- `yaffs_add_chunk`, for the list of chunks. -/
def yaffsAddChunk (g : YaffsGeometry) (new : YaffsChunk) : List YaffsChunk → List YaffsChunk
  | [] => [new]
  | chunk :: chunks =>
    if chunk.logical < new.logical then chunk :: yaffsAddChunk g new chunks
    else if chunk.logical = new.logical then
      if yaffsNewer g chunk.sequence chunk.page chunk.serial new.sequence new.page new.serial then
        new :: chunks
      else chunk :: chunks
    else new :: chunk :: chunks

/-- One round of `yaffs_scan`. -/
def yaffsScanPage (data : YaffsData) (page : ℕ) : Except GrubError YaffsData := do
  let g := data.geometry
  let base := page * g.recordSize
  let raw ← yaffsDiskRead data.disk data.diskSize (base + g.tagsOffset) g.tagsSize
  match yaffsParseTags g raw with
  | none => .ok data
  | some tags =>
    if yaffsSkips tags then .ok data
    else
      let data := data.getObject tags.object
      if tags.chunk ≠ 0 then
        let chunk := ⟨page, tags.chunk, tags.bytes, tags.sequence, tags.serial⟩
        .ok (data.modifyObject tags.object fun o =>
          { o with chunks := yaffsAddChunk g chunk o.chunks })
      else
        let raw ← yaffsDiskRead data.disk data.diskSize base YAFFS_OH_SIZE
        match yaffsParseHeader g raw tags.object with
        | none => .ok data
        | some header =>
          if yaffsHeaderMatchesTags tags header then
            let fresh := (data.findObject tags.object).all fun o => !o.valid
            .ok
              { data.modifyObject tags.object (yaffsSetHeader g tags header page) with
                headerCount := data.headerCount + if fresh then 1 else 0 }
          else .ok data

/-- `yaffs_scan`, which takes the pages in the order of their numbers. -/
def yaffsScan (order : List ℕ) (data : YaffsData) : Except GrubError YaffsData :=
  order.foldlM yaffsScanPage data

/-! ### The tree -/

/-- `yaffs_object_visible`. -/
def yaffsObjectVisible (o : YaffsObject) : Bool :=
  o.valid && !o.shadowed && o.parent ≠ YAFFS_OBJECTID_UNLINKED && o.parent ≠ YAFFS_OBJECTID_DELETED

/-- `yaffs_make_synthetic`. -/
def yaffsMakeSynthetic (data : YaffsData) (id parent type : ℕ) (name : List UInt8) : YaffsData :=
  (data.getObject id).modifyObject id fun o =>
    if o.valid then o
    else
      { o with
        name, parent, type, valid := true, synthetic := true
        mode := if type = YAFFS_TYPE_DIRECTORY then 0o40755 else 0o100644 }

/-- Hide the object with this id. -/
def yaffsShadow (data : YaffsData) (id : ℕ) : YaffsData :=
  data.modifyObject id fun o => { o with shadowed := true }

/-- One round of the first loop of `yaffs_validate_tree`. -/
def yaffsApplyShadow (data : YaffsData) (id : ℕ) : YaffsData :=
  match data.findObject id with
  | none => data
  | some o =>
    if o.valid = true ∧ o.shadows ≠ 0 ∧ o.shadows ≤ YAFFS_OBJECT_MAX then yaffsShadow data o.shadows
    else data

/-- The object is visible, and below one that is not. -/
def yaffsHiddenBelow (data : YaffsData) (id : ℕ) : Bool :=
  (data.findObject id).any fun o =>
    yaffsObjectVisible o && o.id ≠ YAFFS_OBJECTID_ROOT && (data.findObject o.parent).any fun parent =>
      parent.valid && (parent.shadowed || parent.parent = YAFFS_OBJECTID_UNLINKED
        || parent.parent = YAFFS_OBJECTID_DELETED)

/-- One pass over the objects that hides those below hidden ones, and whether it changed any. -/
def yaffsHidePass (data : YaffsData) : YaffsData × Bool :=
  data.ids.foldl
    (fun s id => if yaffsHiddenBelow s.1 id then (yaffsShadow s.1 id, true) else s) (data, false)

/-- The passes of `yaffs_validate_tree`. -/
def yaffsHidePasses : ℕ → YaffsData → YaffsData
  | 0, data => data
  | n + 1, data =>
    let pass := yaffsHidePass data
    if pass.2 then yaffsHidePasses n pass.1 else pass.1

/-- The walk up from an object; `some true` is the root, `some false` a walk without end, and
`none` a parent that is no visible directory. -/
def yaffsWalkUp (data : YaffsData) : ℕ → YaffsObject → Option Bool
  | 0, _ => some false
  | n + 1, o =>
    if o.id = YAFFS_OBJECTID_ROOT then some true
    else
      match data.findObject o.parent with
      | none => none
      | some parent =>
        if yaffsObjectVisible parent = false ∨ parent.type ≠ YAFFS_TYPE_DIRECTORY then none
        else yaffsWalkUp data n parent

/-- One round of the last loop of `yaffs_validate_tree`. -/
def yaffsCheckParents (data : YaffsData) (id : ℕ) : Except GrubError Unit :=
  match data.findObject id with
  | none => .ok ()
  | some o =>
    if yaffsObjectVisible o = false ∨ o.id = YAFFS_OBJECTID_ROOT then .ok ()
    else
      match yaffsWalkUp data (data.objectCount + 1) o with
      | none => .error ⟨.badFs, "invalid YAFFS parent object"⟩
      | some false => .error ⟨.badFs, "cyclic YAFFS parent objects"⟩
      | some true => .ok ()

/-- `yaffs_validate_tree`. -/
def yaffsValidateTree (data : YaffsData) : Except GrubError YaffsData := do
  let data := yaffsMakeSynthetic data YAFFS_OBJECTID_ROOT YAFFS_OBJECTID_ROOT YAFFS_TYPE_DIRECTORY []
  refuseIf ((data.findObject YAFFS_OBJECTID_ROOT).all (·.type ≠ YAFFS_TYPE_DIRECTORY) = true)
    ⟨.badFs, "invalid YAFFS root object"⟩
  let needLostFound := data.ids.any fun id => (data.findObject id).any fun o =>
    o.valid && o.parent = YAFFS_OBJECTID_LOSTNFOUND
  let data := data.ids.foldl yaffsApplyShadow data
  let data :=
    if needLostFound then
      yaffsMakeSynthetic data YAFFS_OBJECTID_LOSTNFOUND YAFFS_OBJECTID_ROOT YAFFS_TYPE_DIRECTORY
        [0x6c, 0x6f, 0x73, 0x74, 0x2b, 0x66, 0x6f, 0x75, 0x6e, 0x64]
    else data
  let data := yaffsHidePasses data.objectCount data
  data.ids.forM (yaffsCheckParents data)
  .ok data

/-- `yaffs_mount`. The pages are scanned in the given order; the source takes `List.range`. -/
def yaffsMount (order : ℕ → List ℕ) (disk : SizedDisk) : Except GrubError YaffsData := do
  let sectors ← require disk.sectors ⟨.badFs, "YAFFS requires a bounded device"⟩
  refuseIf (2 ^ 55 ≤ sectors) ⟨.badFs, "YAFFS requires a bounded device"⟩
  let diskSize := 512 * sectors
  let geometry ← require (yaffsDetectGeometry disk diskSize)
    ⟨.badFs, "not a supported YAFFS filesystem"⟩
  let pages := diskSize / geometry.recordSize
  refuseIf (pages = 0 ∨ 0xffffffff < pages) ⟨.badFs, "invalid YAFFS page count"⟩
  let data ← yaffsScan (order pages)
    { disk, diskSize, pages, geometry, objects := fun _ => [], objectCount := 0, headerCount := 0 }
  refuseIf (data.headerCount = 0) ⟨.badFs, "not a supported YAFFS filesystem"⟩
  yaffsValidateTree data

/-! ### Reads -/

/-- `read_chunk` and `read_logical`: the chunks from the one found last on. -/
structure YaffsCursor where
  readChunk : List YaffsChunk
  readLogical : ℕ

/-- The cursor that `grub_yaffs_open` sets up. -/
def yaffsOpenCursor (o : YaffsObject) : YaffsCursor :=
  ⟨o.chunks, (o.chunks.head?.map YaffsChunk.logical).getD 0⟩

/-- `yaffs_find_chunk`. -/
def yaffsFindChunk (o : YaffsObject) (cursor : YaffsCursor) (logical : ℕ) :
    Option YaffsChunk × YaffsCursor :=
  let start := if cursor.readChunk = [] ∨ logical < cursor.readLogical then o.chunks
    else cursor.readChunk
  let found := start.dropWhile (·.logical < logical)
  (found.head?.filter (·.logical = logical),
    ⟨found, (found.head?.map YaffsChunk.logical).getD 0xffffffff⟩)

/-- One round of the loop of `grub_yaffs_read`: `part` bytes inside one chunk. -/
def yaffsReadPart (data : YaffsData) (o : YaffsObject) (cursor : YaffsCursor) (offset part : ℕ) :
    Except GrubError (List UInt8) × YaffsCursor :=
  let logical := (offset / data.geometry.dataSize % 2 ^ 32 + 1) % 2 ^ 32
  let inChunk := offset % data.geometry.dataSize
  let found := yaffsFindChunk o cursor logical
  match found.1 with
  | none => (.ok (List.replicate part 0), found.2)
  | some chunk =>
    if chunk.bytes ≤ inChunk then (.ok (List.replicate part 0), found.2)
    else
      let present := min part (chunk.bytes - inChunk)
      match yaffsDiskRead data.disk data.diskSize (chunk.page * data.geometry.recordSize + inChunk)
        present with
      | .error e => (.error e, found.2)
      | .ok buf => (.ok (buf.list 0 present ++ List.replicate (part - present) 0), found.2)

/-- The loop of `grub_yaffs_read`, in at most `fuel` rounds. -/
def yaffsReadParts (data : YaffsData) (o : YaffsObject) :
    ℕ → YaffsCursor → ℕ → ℕ → Except GrubError (List UInt8) × YaffsCursor
  | 0, cursor, _, _ => (.ok [], cursor)
  | fuel + 1, cursor, offset, left =>
    if left = 0 then (.ok [], cursor)
    else
      let part := min left (data.geometry.dataSize - offset % data.geometry.dataSize)
      match yaffsReadPart data o cursor offset part with
      | (.error e, cursor) => (.error e, cursor)
      | (.ok bytes, cursor) =>
        match yaffsReadParts data o fuel cursor (offset + part) (left - part) with
        | (.error e, cursor) => (.error e, cursor)
        | (.ok rest, cursor) => (.ok (bytes ++ rest), cursor)

/-- `grub_yaffs_read`; every round reads a byte at least. -/
def grubYaffsRead (data : YaffsData) (o : YaffsObject) (cursor : YaffsCursor) (offset length : ℕ) :
    Except GrubError (List UInt8) × YaffsCursor :=
  if o.size < offset then (.error ⟨.outOfRange, "read past end of YAFFS file"⟩, cursor)
  else
    let length := min length (o.size - offset)
    yaffsReadParts data o length cursor offset length

end FsRover
