import FsRover.Fs.Fshelp
import FsRover.Lib.Guards
import FsRover.Lib.Numbered

/-!
# Registry hives

`regfs.c` shows a registry hive as a file system: keys are directories, values are files. A cell of
the hive bins is named by its offset; records name each other by cell. Reads of the disk succeed:
what is read lies in the hive bins, and `grub_regfs_mount` cuts these to the disk.

## Main definitions

* `FsRover.RegfsData`, `FsRover.regfsCellAt`, `FsRover.regfsReadCell` : the hive and its cells.
* `FsRover.regfsName` : a name as it is shown.
* `FsRover.regfsReadValues`, `FsRover.regfsWalkSubkeys`, `FsRover.regfsEmitValues`,
  `FsRover.regfsIterateDir` : the listing of a key.
* `FsRover.regfsOpenValue`, `FsRover.regfsRead` : the data of a value.
* `FsRover.regfsDirInfo`, `FsRover.regfsOpen` : what `fs_dir` and `fs_open` make of it.
-/

namespace FsRover

open Guards

def REGFS_HBINS_BASE : ℕ := 0x1000
def REGFS_SIG_NK : ℕ := 0x6b6e
def REGFS_SIG_VK : ℕ := 0x6b76
def REGFS_SIG_DB : ℕ := 0x6264
def REGFS_SIG_LF : ℕ := 0x666c
def REGFS_SIG_LH : ℕ := 0x686c
def REGFS_SIG_LI : ℕ := 0x696c
def REGFS_SIG_RI : ℕ := 0x6972
def REGFS_KEY_SYM_LINK : ℕ := 0x0010
def REGFS_KEY_COMP_NAME : ℕ := 0x0020
def REGFS_VALUE_COMP_NAME : ℕ := 0x0001
def REGFS_VALUE_INLINE : ℕ := 0x80000000
def REGFS_SEGMENT_MAX : ℕ := 16344
def REGFS_NIL : ℕ := 0xffffffff
def REGFS_RI_DEPTH_MAX : ℕ := 4
def REGFS_CELL_MAX : ℕ := 16 * 2 ^ 20
def REGFS_VALUES_MAX : ℕ := 65536
def REGFS_EPOCH_BIAS : ℕ := 11644473600

/-- `sizeof (struct grub_regfs_nk)` and `sizeof (struct grub_regfs_vk)`. -/
def REGFS_NK_SIZE : ℕ := 76
def REGFS_VK_SIZE : ℕ := 20

/-- `REGFS_DEFAULT_NAME`: `"(default)"`. -/
def REGFS_DEFAULT_NAME : Name := [0x28, 0x64, 0x65, 0x66, 0x61, 0x75, 0x6c, 0x74, 0x29]

/-- `REGFS_UNNAMED_KEY`: `"(unnamed)"`. -/
def REGFS_UNNAMED_KEY : Name := [0x28, 0x75, 0x6e, 0x6e, 0x61, 0x6d, 0x65, 0x64, 0x29]

/-- `struct grub_regfs_data`; `disk` holds the bytes of the disk. -/
structure RegfsData where
  disk : Buf
  rootCell : ℕ
  hbinsSize : ℕ
  cellExtra : ℕ
  mtime : ℤ

/-- `grub_regfs_filetime_to_unix`. -/
def regfsFiletimeToUnix (ft : ℕ) : ℤ := (ft / 10000000 : ℕ) - (REGFS_EPOCH_BIAS : ℤ)

/-! ### Cells -/

/-- `grub_regfs_cell_at`: where the value of the cell lies on the disk, and its length. -/
def regfsCellAt (data : RegfsData) (offset : ℕ) : Except GrubError (ℕ × ℕ) := do
  let head := 4 + data.cellExtra
  let bad : GrubError :=
    ⟨.badFs, "invalid registry cell at 0x" ++ String.ofList (Nat.toDigits 16 offset)⟩
  refuseIf (data.hbinsSize ≤ offset ∨ data.hbinsSize - offset < head) bad
  let raw := lostLe32 data.disk (REGFS_HBINS_BASE + offset)
  refuseIf (raw < 0x80000000) bad
  -- an allocated cell carries its size negated
  let size := 2 ^ 32 - raw
  refuseIf (size < head ∨ REGFS_CELL_MAX < size ∨ data.hbinsSize - offset < size) bad
  .ok (REGFS_HBINS_BASE + offset + head, size - head)

/-- `grub_regfs_read_cell`: the value of the cell, and its length. -/
def regfsReadCell (data : RegfsData) (offset : ℕ) : Except GrubError (Buf × ℕ) := do
  let (diskOff, len) ← regfsCellAt data offset
  .ok (data.disk.from diskOff, len)

/-! ### Names -/

/-- `grub_regfs_must_escape`. -/
def regfsMustEscape (c : UInt8) : Bool :=
  c < 0x20 || c == 0x7f || c == 0x25 || c == 0x2f || c == 0x5c || c == 0x3a || c == 0x2a || c
    == 0x3f
    || c == 0x22 || c == 0x3c || c == 0x3e || c == 0x7c

/-- The latin-1 half of `grub_regfs_name`. -/
def regfsLatin1 (c : UInt8) : List UInt8 :=
  if c < 0x80 then [c] else [0xc0 ||| c >>> (6 : UInt8), 0x80 ||| (c &&& 0x3f)]

/-- `size` rounds of `grub_utf16_to_utf8`. A unit that does not complete a surrogate pair is looked
at again in the next round. -/
def grubUtf16ToUtf8 : ℕ → ℕ → List ℕ → List UInt8
  | 0, _, _ => []
  | _ + 1, _, [] => []
  | size + 1, codeHigh, code :: src =>
    if codeHigh ≠ 0 then
      if 0xdc00 ≤ code ∧ code ≤ 0xdfff then
        let c := (codeHigh - 0xd800) * 2 ^ 10 + (code - 0xdc00) + 0x10000
        [UInt8.ofNat (0xf0 + c / 2 ^ 18), UInt8.ofNat (0x80 + c / 2 ^ 12 % 64),
          UInt8.ofNat (0x80 + c / 2 ^ 6 % 64), UInt8.ofNat (0x80 + c % 64)]
          ++ grubUtf16ToUtf8 size 0 src
      else 0x3f :: grubUtf16ToUtf8 size 0 (code :: src)
    else if code ≤ 0x7f then UInt8.ofNat code :: grubUtf16ToUtf8 size 0 src
    else if code ≤ 0x7ff then
      [UInt8.ofNat (0xc0 + code / 2 ^ 6), UInt8.ofNat (0x80 + code % 64)]
        ++ grubUtf16ToUtf8 size 0 src
    else if 0xd800 ≤ code ∧ code ≤ 0xdbff then grubUtf16ToUtf8 size code src
    else if 0xdc00 ≤ code ∧ code ≤ 0xdfff then 0x3f :: grubUtf16ToUtf8 size 0 src
    else
      [UInt8.ofNat (0xe0 + code / 2 ^ 12), UInt8.ofNat (0x80 + code / 2 ^ 6 % 64),
        UInt8.ofNat (0x80 + code % 64)] ++ grubUtf16ToUtf8 size 0 src

/-- `"0123456789ABCDEF"[d]`. -/
def regfsHex (d : UInt8) : UInt8 := if d < 10 then 0x30 + d else 0x41 + (d - 10)

/-- One character of a shown name. -/
def regfsEscape (c : UInt8) (force : Bool) : List UInt8 :=
  if regfsMustEscape c || force then
    [0x25, regfsHex (c >>> (4 : UInt8)), regfsHex (c &&& 0xf)]
  else [c]

/-- The end of `grub_regfs_name`: the string up to its terminator, escaped. -/
def regfsShow (utf8 : List UInt8) : Name :=
  match utf8.takeWhile (· ≠ 0) with
  | [] => []
  | c :: cs =>
    let hideDot := c :: cs = [0x2e] ∨ c :: cs = [0x2e, 0x2e]
    regfsEscape c hideDot ++ cs.flatMap (regfsEscape · false)

/-- `grub_regfs_name`. -/
def regfsName (raw : Buf) (size : ℕ) (comp : Bool) : Name :=
  if comp then regfsShow (((List.range size).map raw).flatMap regfsLatin1)
  else
    let units := size / 2
    regfsShow (grubUtf16ToUtf8 units 0 ((List.range units).map fun i => lostLe16 raw (2 * i)))

/-! ### Listing -/

/-- `struct grub_fshelp_node` of a listing. -/
structure RegfsNode where
  cell : ℕ
  mtime : ℤ
  isValue : Bool
  isSymlink : Bool
  size : ℕ
  deriving DecidableEq

/-- `struct grub_regfs_value`. -/
structure RegfsValue where
  name : Name
  cell : ℕ
  collides : Bool
  recheck : Bool

/-- The value record in `cell`, if it is not damaged. -/
def regfsReadValue (data : RegfsData) (cell : ℕ) : Option RegfsValue :=
  match regfsReadCell data cell with
  | .error _ => none
  | .ok (vk, len) =>
    if len < REGFS_VK_SIZE ∨ lostLe16 vk 0 ≠ REGFS_SIG_VK then none
    else
      let name := regfsName (vk.from REGFS_VK_SIZE) (min (lostLe16 vk 2) (len - REGFS_VK_SIZE))
        (lostLe16 vk 16 % 2 = REGFS_VALUE_COMP_NAME)
      let name := if name = [] then REGFS_DEFAULT_NAME else name
      some { name, cell, collides := false, recheck := sameName name REGFS_DEFAULT_NAME }

/-- `grub_regfs_read_values` for the key `nk`. -/
def regfsReadValues (data : RegfsData) (nk : Buf) : List RegfsValue :=
  let listOff := lostLe32 nk 40
  let count := min (lostLe32 nk 36) REGFS_VALUES_MAX
  if lostLe32 nk 36 = 0 ∨ listOff = REGFS_NIL then []
  else
    match regfsReadCell data listOff with
    | .error _ => []
    | .ok (list, len) =>
      (List.range (min count (len / 4))).filterMap fun i =>
        regfsReadValue data (lostLe32 list (i * 4))

/-- The name and the node `grub_regfs_emit_key` hands to the hook, if the record is a key. -/
def regfsEmitKey (data : RegfsData) (cell : ℕ) : Option (FshelpItem RegfsNode) :=
  match regfsReadCell data cell with
  | .error _ => none
  | .ok (nk, len) =>
    if len < REGFS_NK_SIZE ∨ lostLe16 nk 0 ≠ REGFS_SIG_NK then none
    else
      let flags := lostLe16 nk 2
      let name := regfsName (nk.from REGFS_NK_SIZE) (min (lostLe16 nk 72) (len - REGFS_NK_SIZE))
        (flags / REGFS_KEY_COMP_NAME % 2 = 1)
      some {
        name := if name = [] then REGFS_UNNAMED_KEY else name
        type := .dir
        caseInsensitive := true
        node := {
          cell
          mtime := regfsFiletimeToUnix (lostLe64 nk 4)
          isValue := false
          isSymlink := flags / REGFS_KEY_SYM_LINK % 2 = 1
          size := 0 } }

/-- `grub_regfs_walk_subkeys` on the list at `off`, `depth` lists deep at most. -/
def regfsWalkSubkeys (data : RegfsData) : ℕ → ℕ → List (FshelpItem RegfsNode)
  | 0, _ => []
  | depth + 1, off =>
    if off = REGFS_NIL then []
    else
      match regfsReadCell data off with
      | .error _ => []
      | .ok (list, len) =>
        let sig := lostLe16 list 0
        let wide := sig = REGFS_SIG_LF ∨ sig = REGFS_SIG_LH
        let stride := if wide then 8 else 4
        if len < 4 ∨ (¬ wide ∧ sig ≠ REGFS_SIG_LI ∧ sig ≠ REGFS_SIG_RI) then []
        else
          (List.range (min (lostLe16 list 2) ((len - 4) / stride))).flatMap fun i =>
            let cell := lostLe32 list (4 + i * stride)
            if sig = REGFS_SIG_RI then regfsWalkSubkeys data depth cell
            else (regfsEmitKey data cell).toList

/-- `"%s~%u"`. -/
def regfsNumbered (name : Name) (suffix : ℕ) : Name := name ++ 0x7e :: Numbered.decimal suffix

/-- The candidate for a suffix. -/
def regfsCandidate (name : Name) (suffix : ℕ) : Name :=
  if suffix = 0 then name else regfsNumbered name suffix

/-- The loop of `grub_regfs_emit_values` for the name of one value, with the names of the values
before it. Each round but the first takes a number, and `earlier` holds fewer names than rounds are
left. -/
def regfsSettle (earlier : List Name) (value : RegfsValue) : Option Name :=
  if value.collides || value.recheck then
    (Numbered.firstFree (fun k => earlier.any (sameName · (regfsCandidate value.name k)))
      (earlier.length + 1) (if value.collides then 1 else 0)).map (regfsCandidate value.name)
  else some value.name

/-- `grub_regfs_emit_values` for the values that are left. -/
def regfsEmitValues (mtime : ℤ) :
    List Name → List RegfsValue → Option (List (FshelpItem RegfsNode))
  | _, [] => some []
  | earlier, value :: rest => do
    let name ← regfsSettle earlier value
    let items ← regfsEmitValues mtime (earlier ++ [name]) rest
    some ({
      name
      type := .reg
      caseInsensitive := true
      node := { cell := value.cell, mtime, isValue := true, isSymlink := false, size := 0 } }
        :: items)

/-- The values a sub key takes the name of. -/
def regfsMarkCollisions (keys : List (FshelpItem RegfsNode)) (values : List RegfsValue) :
    List RegfsValue :=
  values.map fun v => { v with collides := keys.any fun k => sameName v.name k.name }

/-- The sub keys of the key in `cell`, and its values with their collisions; none if the record is
not a key. -/
def regfsKeyEntries (data : RegfsData) (cell : ℕ) : List (FshelpItem RegfsNode) × List RegfsValue
  × ℤ :=
  match regfsReadCell data cell with
  | .error _ => ([], [], 0)
  | .ok (nk, len) =>
    if len < REGFS_NK_SIZE ∨ lostLe16 nk 0 ≠ REGFS_SIG_NK then ([], [], 0)
    else
      let keys := regfsWalkSubkeys data (REGFS_RI_DEPTH_MAX + 1) (lostLe32 nk 28)
      (keys, regfsMarkCollisions keys (regfsReadValues data nk),
        regfsFiletimeToUnix (lostLe64 nk 4))

/-- `grub_regfs_iterate_dir`: everything a hook gets that does not stop it. A hook that stops has
seen the items up to there; `none` stands for a loop that does not end. -/
def regfsIterateDir (data : RegfsData) (cell : ℕ) : Option (List (FshelpItem RegfsNode)) := do
  let (keys, values, mtime) := regfsKeyEntries data cell
  let items ← regfsEmitValues mtime [] values
  some (keys ++ items)

/-- `grub_regfs_iterate_dir` as `grub_fshelp_find_file` calls it. -/
def regfsIterate (data : RegfsData) (node : RegfsNode) : List (FshelpItem RegfsNode) :=
  (regfsIterateDir data node.cell).getD []

/-- `grub_regfs_root_node`. -/
def regfsRootNode (data : RegfsData) : RegfsNode where
  cell := data.rootCell
  mtime := data.mtime
  isValue := false
  isSymlink := false
  size := 0

/-- `struct grub_dirhook_info`, as far as `grub_regfs_dir_iter` fills it in. -/
structure RegfsDirInfo where
  dir : Bool
  symlink : Bool
  mtime : ℤ
  size : Option ℕ
  deriving DecidableEq

/-- `grub_regfs_dir_iter`. -/
def regfsDirInfo (item : FshelpItem RegfsNode) : RegfsDirInfo where
  dir := item.type = .dir
  symlink := item.node.isSymlink
  mtime := item.node.mtime
  size := if item.type ≠ .dir ∧ item.node.isSymlink = false then some item.node.size else none

/-- `grub_regfs_dir`: the names and what is said of them. -/
def regfsDir (data : RegfsData) (path : Name) : Except GrubError (List (Name × RegfsDirInfo)) := do
  let node ← fshelpFindFile (regfsIterate data) (regfsRootNode data) path .dir
  .ok ((regfsIterate data node).map fun item => (item.name, regfsDirInfo item))

/-! ### Data -/

/-- What `grub_regfs_open_value` adds to the node: the segments as disk offset and length, or the
bytes in the record. -/
structure RegfsFile where
  size : ℕ
  segs : List (ℕ × ℕ)
  inlineData : List UInt8
  deriving DecidableEq

/-- The loop of `grub_regfs_open_value` over the cells of a `db` record that are left, with `total`
bytes found. -/
def regfsSegments (data : RegfsData) (list : Buf) (size : ℕ) :
    ℕ → ℕ → ℕ → Except GrubError (List (ℕ × ℕ) × ℕ)
  | 0, _, total => .ok ([], total)
  | n + 1, i, total =>
    if total < size then do
      let (diskOff, len) ← regfsCellAt data (lostLe32 list (i * 4))
      let len := min (min len REGFS_SEGMENT_MAX) (size - total)
      let (segs, total) ← regfsSegments data list size n (i + 1) (total + len)
      .ok ((diskOff, len) :: segs, total)
    else .ok ([], total)

/-- The cell of a value is a `db` record. -/
def regfsIsDb (data : RegfsData) (size diskOff cellLen : ℕ) : Bool :=
  REGFS_SEGMENT_MAX < size && 8 ≤ cellLen && cellLen ≤ 32 && lostLe16 data.disk diskOff
    = REGFS_SIG_DB

/-- `grub_regfs_open_value` of the value record in `cell`. -/
def regfsOpenValue (data : RegfsData) (cell : ℕ) : Except GrubError RegfsFile := do
  let (vk, vkLen) ← regfsReadCell data cell
  refuseIf (vkLen < REGFS_VK_SIZE ∨ lostLe16 vk 0 ≠ REGFS_SIG_VK)
    ⟨.badFs, "invalid registry value record"⟩
  let size := lostLe32 vk 4
  let off := lostLe32 vk 8
  if REGFS_VALUE_INLINE ≤ size then
    let size := min (size - REGFS_VALUE_INLINE) 4
    .ok { size, segs := [], inlineData := (List.range size).map (vk.from 8) }
  else if size = 0 ∨ off = REGFS_NIL then .ok { size := 0, segs := [], inlineData := [] }
  else do
    let (diskOff, cellLen) ← regfsCellAt data off
    if regfsIsDb data size diskOff cellLen then do
      let (list, listLen) ← regfsReadCell data (lostLe32 data.disk (diskOff + 4))
      let (segs, total) ← regfsSegments data list size
        (min (lostLe16 data.disk (diskOff + 2)) (listLen / 4)) 0 0
      .ok { size := total, segs, inlineData := [] }
    else
      .ok { size := min size cellLen, segs := [(diskOff, min size cellLen)], inlineData := [] }

/-- `grub_regfs_open`. -/
def regfsOpen (data : RegfsData) (path : Name) : Except GrubError RegfsFile := do
  let node ← fshelpFindFile (regfsIterate data) (regfsRootNode data) path .reg
  regfsOpenValue data node.cell

/-- The loop of `grub_regfs_read` over the segments that are left. -/
def regfsReadSegs (disk : Buf) : List (ℕ × ℕ) → ℕ → ℕ → List UInt8
  | [], _, _ => []
  | (off, segLen) :: segs, pos, len =>
    if len = 0 then []
    else if segLen ≤ pos then regfsReadSegs disk segs (pos - segLen) len
    else
      let n := min (segLen - pos) len
      (List.range n).map (disk.from (off + pos)) ++ regfsReadSegs disk segs 0 (len - n)

/-- `grub_regfs_read` of `len` bytes from `pos` on. -/
def regfsRead (data : RegfsData) (file : RegfsFile) (pos len : ℕ) : List UInt8 :=
  if file.size ≤ pos then []
  else
    let len := min len (file.size - pos)
    if file.inlineData ≠ [] then (file.inlineData.drop pos).take len
    else regfsReadSegs data.disk file.segs pos len

/-- `grub_regfs_mount`, of a disk of `total` bytes if its size is known. -/
def regfsMount (disk : Buf) (total : Option ℕ) : Except GrubError RegfsData := do
  let bad : GrubError := ⟨.badFs, "not a registry hive"⟩
  let minor := lostLe32 disk 24
  refuseIf (lostLe32 disk 0 ≠ 0x66676572 ∨ lostLe32 disk 20 ≠ 1 ∨ lostLe32 disk 32 ≠ 1) bad
  refuseIf (lostLe32 disk 28 ≠ 0) bad
  refuseIf (minor < 1 ∨ 6 < minor) bad
  refuseIf (lostLe32 disk REGFS_HBINS_BASE ≠ 0x6e696268) bad
  let hbins := lostLe32 disk 40
  let data : RegfsData := {
    disk
    rootCell := lostLe32 disk 36
    hbinsSize := total.elim hbins fun total => min hbins (total - REGFS_HBINS_BASE)
    cellExtra := if minor ≤ 1 then 4 else 0
    mtime := regfsFiletimeToUnix (lostLe64 disk 12) }
  let (root, len) ← (regfsReadCell data data.rootCell).mapError fun _ => bad
  refuseIf (len < REGFS_NK_SIZE ∨ lostLe16 root 0 ≠ REGFS_SIG_NK) bad
  .ok data

end FsRover
