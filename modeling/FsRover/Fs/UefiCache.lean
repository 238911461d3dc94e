import FsRover.Fs.Pkghelp
import FsRover.Lib.History
import FsRover.Lib.Shared

/-!
# Mounted UEFI images

The hooks of `uefi.c` mount the device at each call. The tree of the image mounted last is kept, and
open files share it. What an image is parsed into is a function of its bytes.

## Main definitions

* `FsRover.UefiParser` : the probe and the parser.
* `FsRover.UefiState`, `FsRover.uefiMount` : the cache, the open files and the trees they hold.
* `FsRover.uefiStep` : one call of a hook.
* `FsRover.uefiPlainStep` : the same call when each mount parses the device.
* `FsRover.uefiFlashParser` : the parser on flash images without firmware volumes.
-/

namespace FsRover

/-! ### Images -/

/-- `struct uefi_ent`. -/
structure UefiEnt where
  path : Name
  isDir : Bool
  bufIndex : ℕ
  offset : ℕ
  size : ℕ
  deriving DecidableEq

/-- What is used of a `struct grub_uefi_data` after the mount. -/
structure UefiImage where
  bufs : List (List UInt8)
  ents : List UefiEnt
  deriving DecidableEq

/-- What `uefi_parse_image` and `uefi_build_paths` add to the buffer with the image. -/
structure UefiParsed where
  unpacked : List (List UInt8)
  numItems : ℕ
  ents : List UefiEnt

/-- `uefi_probe`, and `uefi_parse_image` with `uefi_build_paths`, on the bytes of a device. The
parser fails with `grub_errno` or without setting it. -/
structure UefiParser where
  probe : List UInt8 → Bool
  parse : List UInt8 → Except (Option GrubError) UefiParsed

/-- A device with its name. -/
structure UefiDisk where
  name : Name
  disk : SizedDisk

namespace UefiDisk

/-- The size in bytes, if it is known and the header of a volume fits. -/
def total (device : UefiDisk) : Option ℕ :=
  (device.disk.sectors.map (512 * ·)).filter (0x38 ≤ ·)

/-- The bytes of the device. -/
def content (device : UefiDisk) (total : ℕ) : List UInt8 := device.disk.bytes.list 0 total

/-- The bytes at the start that `grub_uefi_mount` reads before anything else. -/
def head (device : UefiDisk) (total : ℕ) : List UInt8 :=
  device.disk.bytes.list 0 (min total 0x1000)

end UefiDisk

def uefiNotOurs : GrubError := ⟨.badFs, "not a uefi firmware image"⟩

/-- The checks of `grub_uefi_mount` before it lets go of the image mounted last. -/
def uefiAdmit (parser : UefiParser) (content : List UInt8) : Except GrubError Unit :=
  if !parser.probe content then .error uefiNotOurs
  else if 2 ^ 28 < content.length then .error ⟨.badFs, "uefi image too large"⟩
  else .ok ()

/-- The tree `grub_uefi_mount` builds. -/
def uefiBuild (parser : UefiParser) (content : List UInt8) : Except GrubError UefiImage :=
  match parser.parse content with
  | .error e => .error (e.getD uefiNotOurs)
  | .ok parsed =>
    if parsed.numItems = 0 then .error uefiNotOurs
    else .ok ⟨content :: parsed.unpacked, parsed.ents⟩

/-! ### Hooks -/

/-- `uefi_norm_path`: what is between the slashes at both ends. -/
def uefiNormPath (path : Name) : Name :=
  (path.dropWhile (· = pkgSlash)).rdropWhile (· = pkgSlash)

/-- What the hook of a listing gets with a name. -/
structure UefiDirInfo where
  dir : Bool
  inode : ℕ
  size : Option ℕ
  deriving DecidableEq

/-- The path `name` relative to the directory `dir`, if it is the directory or in it. -/
def uefiRelative (dir name : Name) : Option Name :=
  if dir = [] then some name
  else if name = dir then some []
  else if name.take dir.length = dir ∧ (name.drop dir.length).head? = some pkgSlash then
    some (name.drop (dir.length + 1))
  else none

/-- The entries of `dir`, from index `i` on. -/
def uefiDirLoop (dir : Name) : ℕ → List UefiEnt → List (Name × UefiDirInfo)
  | _, [] => []
  | i, ent :: ents =>
    match uefiRelative dir ent.path with
    | none => uefiDirLoop dir (i + 1) ents
    | some rest =>
      if rest = [] ∨ pkgSlash ∈ rest then uefiDirLoop dir (i + 1) ents
      else
        (rest, ⟨ent.isDir, i, if ent.isDir then none else some ent.size⟩)
          :: uefiDirLoop dir (i + 1) ents

/-- `grub_uefi_dir` after the mount: everything a hook gets that does not stop it. -/
def uefiDir (image : UefiImage) (path : Name) : Except GrubError (List (Name × UefiDirInfo)) :=
  let dir := uefiNormPath path
  let listed := uefiDirLoop dir 0 image.ents
  if dir = [] ∨ listed ≠ [] ∨ ∃ ent ∈ image.ents, ent.path = dir then .ok listed
  else .error (pkgNotFound path)

/-- `uefi_find_ent`. -/
def uefiFindEnt (image : UefiImage) (name : Name) : Option ℕ :=
  image.ents.findIdx? fun ent => ent.path = uefiNormPath name

/-- `grub_uefi_open` after the mount: the index and the size of the file. -/
def uefiOpen (image : UefiImage) (name : Name) : Except GrubError (ℕ × ℕ) :=
  match (uefiFindEnt image name).bind fun i => image.ents[i]?.map (i, ·) with
  | none => .error (pkgNotFound name)
  | some (i, ent) =>
    if ent.isDir then .error ⟨.badFileType, "is a directory"⟩ else .ok (i, ent.size)

/-- `grub_uefi_read` of `len` bytes at `pos`; `none` is the result -1. -/
def uefiRead (image : UefiImage) (index pos len : ℕ) : Option (List UInt8) :=
  match image.ents[index]? with
  | none => none
  | some ent =>
    match image.bufs[ent.bufIndex]? with
    | none => none
    | some b =>
      if b.length < ent.offset then none
      else
        let avail := min (b.length - ent.offset) ent.size
        if avail ≤ pos then some []
        else some ((b.drop (ent.offset + pos)).take (min len (avail - pos)))

/-! ### The cache -/

/-- The variables `uefi_cache_*`, with the handle of the tree. -/
structure UefiCache where
  data : ℕ
  name : Name
  size : ℕ
  key : List UInt8

/-- An open file: `struct grub_uefi_file`, with the handle of the tree. -/
structure UefiFile where
  id : ℕ
  data : ℕ
  index : ℕ

/-- The trees that are not freed, the cache and the open files. -/
structure UefiState where
  heap : Shared.Heap UefiImage
  cache : Option UefiCache
  files : List UefiFile
  nextId : ℕ

namespace UefiState

def init : UefiState := ⟨.empty, none, [], 0⟩

/-- `uefi_cache_drop`. -/
def cacheDrop (s : UefiState) : UefiState :=
  match s.cache with
  | none => s
  | some cache => { s with heap := s.heap.put cache.data, cache := none }

/-- A new tree, held by the cache. -/
def cacheStore (s : UefiState) (name : Name) (size : ℕ) (head : List UInt8) (image : UefiImage) :
    UefiState :=
  { s with
    heap := s.heap.alloc image
    cache := some ⟨s.heap.next, name, size, head.take 512⟩ }

/-- The condition under which `grub_uefi_mount` reuses the tree in the cache. -/
def CacheHit (cache : UefiCache) (name : Name) (total : ℕ) (head : List UInt8) : Prop :=
  cache.name = name ∧ cache.size = total ∧ cache.key = head.take 512

instance (cache : UefiCache) (name : Name) (total : ℕ) (head : List UInt8) :
    Decidable (CacheHit cache name total head) :=
  inferInstanceAs (Decidable (_ ∧ _))

/-- The handle of the tree in the cache, if it is reused. -/
def lookup (s : UefiState) (name : Name) (total : ℕ) (head : List UInt8) : Option ℕ :=
  s.cache.bind fun cache => if CacheHit cache name total head then some cache.data else none

end UefiState

/-- `grub_uefi_mount`. -/
def uefiMount (parser : UefiParser) (s : UefiState) (device : UefiDisk) :
    Except GrubError ℕ × UefiState :=
  match device.total with
  | none => (.error uefiNotOurs, s)
  | some total =>
    match s.lookup device.name total (device.head total) with
    | some data => (.ok data, s)
    | none =>
      match uefiAdmit parser (device.content total) with
      | .error e => (.error e, s)
      | .ok () =>
        match uefiBuild parser (device.content total) with
        | .error e => (.error e, s.cacheDrop)
        | .ok image =>
          (.ok s.cacheDrop.heap.next,
            s.cacheDrop.cacheStore device.name total (device.head total) image)

/-! ### Calls -/

/-- A call of a hook. Files are named by the order in which they are opened. -/
inductive UefiCall
  | dir (device : UefiDisk) (path : Name)
  | openFile (device : UefiDisk) (path : Name)
  | read (id pos len : ℕ)
  | close (id : ℕ)

/-- The device a call is made on. -/
def UefiCall.device : UefiCall → Option UefiDisk
  | dir device _ => some device
  | openFile device _ => some device
  | read _ _ _ => none
  | close _ => none

/-- What a call returns. The last two cases are the use of a tree that is freed, and of a file that
is not open. -/
inductive UefiAnswer
  | listing (entries : Except GrubError (List (Name × UefiDirInfo)))
  | opened (file : Except GrubError (ℕ × ℕ))
  | bytes (result : Option (List UInt8))
  | closed
  | freed
  | notOpen
  deriving DecidableEq

/-- `grub_uefi_dir`, `grub_uefi_open`, `grub_uefi_read` and `grub_uefi_close`. -/
def uefiStep (parser : UefiParser) (s : UefiState) : UefiCall → UefiAnswer × UefiState
  | .dir device path =>
    match uefiMount parser s device with
    | (.error e, s') => (.listing (.error e), s')
    | (.ok data, s') =>
      match s'.heap.get data with
      | none => (.freed, s')
      | some image => (.listing (uefiDir image path), s')
  | .openFile device path =>
    match uefiMount parser s device with
    | (.error e, s') => (.opened (.error e), s')
    | (.ok data, s') =>
      match s'.heap.get data with
      | none => (.freed, s')
      | some image =>
        match uefiOpen image path with
        | .error e => (.opened (.error e), s')
        | .ok (index, size) =>
          (.opened (.ok (s'.nextId, size)),
            { s' with
              heap := s'.heap.hold data
              files := ⟨s'.nextId, data, index⟩ :: s'.files
              nextId := s'.nextId + 1 })
  | .read id pos len =>
    match s.files.find? (·.id = id) with
    | none => (.notOpen, s)
    | some file =>
      match s.heap.get file.data with
      | none => (.freed, s)
      | some image => (.bytes (uefiRead image file.index pos len), s)
  | .close id =>
    match s.files.find? (·.id = id) with
    | none => (.notOpen, s)
    | some file =>
      (.closed, { s with heap := s.heap.put file.data, files := s.files.eraseP (·.id = id) })

/-! ### Without the cache -/

/-- `grub_uefi_mount` when nothing is kept. -/
def uefiPlainMount (parser : UefiParser) (device : UefiDisk) : Except GrubError UefiImage :=
  match device.total with
  | none => .error uefiNotOurs
  | some total =>
    match uefiAdmit parser (device.content total) with
    | .error e => .error e
    | .ok () => uefiBuild parser (device.content total)

/-- An open file with the tree it was opened from. -/
structure UefiPlainFile where
  id : ℕ
  image : UefiImage
  index : ℕ

structure UefiPlainState where
  files : List UefiPlainFile
  nextId : ℕ

def UefiPlainState.init : UefiPlainState := ⟨[], 0⟩

/-- The calls when each mount parses the device and each file has a tree of its own. -/
def uefiPlainStep (parser : UefiParser) (s : UefiPlainState) :
    UefiCall → UefiAnswer × UefiPlainState
  | .dir device path =>
    match uefiPlainMount parser device with
    | .error e => (.listing (.error e), s)
    | .ok image => (.listing (uefiDir image path), s)
  | .openFile device path =>
    match uefiPlainMount parser device with
    | .error e => (.opened (.error e), s)
    | .ok image =>
      match uefiOpen image path with
      | .error e => (.opened (.error e), s)
      | .ok (index, size) =>
        (.opened (.ok (s.nextId, size)),
          { s with files := ⟨s.nextId, image, index⟩ :: s.files, nextId := s.nextId + 1 })
  | .read id pos len =>
    match s.files.find? (·.id = id) with
    | none => (.notOpen, s)
    | some file => (.bytes (uefiRead file.image file.index pos len), s)
  | .close id =>
    match s.files.find? (·.id = id) with
    | none => (.notOpen, s)
    | some _ => (.closed, { s with files := s.files.eraseP (·.id = id) })

/-! ### Flash images -/

/-- `uefi_get32` on the bytes of a buffer. -/
def uefiGet32 (bytes : List UInt8) (i : ℕ) : ℕ := lostLe32 (fun k => bytes.getD k 0) i

/-- `uefi_region_names`. -/
def uefiRegionNames : List String :=
  ["Descriptor", "BIOS", "ME", "GbE", "PDR", "Region5", "Region6", "Region7"]

/-- The region number `i` of `uefi_parse_intel`, when no firmware volume is in it. -/
def uefiRegion (bytes : List UInt8) (i : ℕ) (name : String) : Option UefiEnt :=
  let off := uefiGet32 bytes 20 / 2 ^ 12 % 2 ^ 12 / 2 ^ 4 * 2 ^ 4 + 4 * i
  let val := uefiGet32 bytes off
  let lim := val / 2 ^ 16 % 2 ^ 12
  let base := val % 2 ^ 12
  if bytes.length < off + 4 ∨ (base = 0xfff ∧ lim = 0) ∨ lim < base ∨ bytes.length ≤ 2 ^ 12 * base
  then none
  else
    some ⟨name.toUTF8.toList, false, 0, 2 ^ 12 * base,
      min (2 ^ 12 * (lim + 1 - base)) (bytes.length - 2 ^ 12 * base)⟩

def uefiIsFlash (bytes : List UInt8) : Bool :=
  0x1000 ≤ bytes.length ∧ uefiGet32 bytes 0x10 = 0x0ff0a55a

/-- `uefi_probe`, `uefi_parse_image` and `uefi_build_paths` on an image that starts with a flash
descriptor and has no firmware volumes: the regions are the files. -/
def uefiFlashParser : UefiParser where
  probe := uefiIsFlash
  parse bytes :=
    if uefiIsFlash bytes then
      let ents := uefiRegionNames.zipIdx.filterMap fun region =>
        uefiRegion bytes region.2 region.1
      .ok ⟨[], ents.length, ents⟩
    else .error none

end FsRover
