import FsRover.Fs.Littlefs

/-!
# Directories of littlefs

A directory is a list of metadata pairs. `grub_littlefs_dir` lists the entries of each of them by
their ids, `littlefs_lookup_file` lets the scan of each look for a name. Where a move out of a pair
lost power, both take the moved entry away and renumber the entries above it.

## Main definitions

* `FsRover.LittlefsFs`, `FsRover.LittlefsNode` : the file system, and what an entry is.
* `FsRover.littlefsDirFetchmatch` : the newer block of a pair that has a commit.
* `FsRover.littlefsDirGetinfo`, `FsRover.littlefsFillNode` : an entry by its id.
-/

namespace FsRover

def LITTLEFS_TYPE_DIR : ℕ := 0x002
def LITTLEFS_TYPE_DIRSTRUCT : ℕ := 0x200
def LITTLEFS_TYPE_INLINESTRUCT : ℕ := 0x201
def LITTLEFS_TYPE_CTZSTRUCT : ℕ := 0x202
def LITTLEFS_NAME_MAX : ℕ := 0x3fe
def LITTLEFS_FILE_MAX : ℕ := 0x7fffffff

/-- The file system, with what `littlefs_disk_read` finds for the revision of a block. -/
structure LittlefsFs extends LittlefsData where
  revision : ℕ → Except GrubError ℕ

/-- `struct grub_fshelp_node`. -/
structure LittlefsNode where
  mdir : LittlefsMdir
  pair : ℕ × ℕ
  head : ℕ
  size : ℕ
  id : ℕ
  isdir : Bool
  isinline : Bool
  deriving DecidableEq

/-! ### Entries -/

/-- `littlefs_fill_node`. -/
def littlefsFillNode (data : LittlefsData) (mdir : LittlefsMdir) (nametag : ℕ) :
    LittlefsStatus LittlefsNode :=
  match littlefsDirGetslice data mdir LITTLEFS_STRUCT_MASK
    (littlefsMktag LITTLEFS_TYPE_STRUCT (littlefsTagId nametag) 0) 0 8 with
  | .err e => .err e
  | .noent => .noent
  | .ok (tag, st) =>
    let word := lostLe32 fun k => st.getD k 0
    let node : LittlefsNode := {
      mdir
      pair := (0, 0)
      head := 0
      size := 0
      id := littlefsTagId nametag
      isdir := littlefsTagType3 nametag = LITTLEFS_TYPE_DIR
      isinline := false }
    if littlefsTagType3 tag = LITTLEFS_TYPE_DIRSTRUCT then
      if node.isdir then .ok { node with pair := (word 0, word 4) } else .noent
    else if littlefsTagType3 tag = LITTLEFS_TYPE_CTZSTRUCT then
      if LITTLEFS_FILE_MAX < word 4 ∨ (word 4 ≠ 0 ∧ data.blockCount ≤ word 0) ∨ node.isdir then
        .noent
      else .ok { node with head := word 0, size := word 4 }
    else if littlefsTagType3 tag = LITTLEFS_TYPE_INLINESTRUCT then
      if node.isdir then .noent
      else .ok { node with isinline := true, size := littlefsTagSize tag }
    else .noent

/-- `littlefs_dir_getinfo`: the name buffer, and the node. -/
def littlefsDirGetinfo (data : LittlefsData) (mdir : LittlefsMdir) (id : ℕ) :
    LittlefsStatus (List UInt8 × LittlefsNode) :=
  match littlefsDirGetslice data mdir LITTLEFS_NAME_MASK (littlefsMktag LITTLEFS_TYPE_NAME id 0) 0
    (LITTLEFS_NAME_MAX + 1) with
  | .err e => .err e
  | .noent => .noent
  | .ok (tag, name) =>
    match littlefsFillNode data mdir tag with
    | .err e => .err e
    | .noent => .noent
    | .ok node => .ok (name, node)

/-- `littlefs_read_data` of a node whose payload sits in its pair: the bytes from `pos` on. -/
def littlefsReadInline (data : LittlefsData) (node : LittlefsNode) (pos len : ℕ) :
    LittlefsStatus (List UInt8) :=
  if node.size ≤ pos then .ok []
  else
    match littlefsDirGetslice data node.mdir (littlefsMktag 0x7ff 0x3ff 0)
      (littlefsMktag LITTLEFS_TYPE_INLINESTRUCT node.id 0) pos (min len (node.size - pos)) with
    | .err e => .err e
    | .noent => .err ⟨.badFs, "littlefs: inline data disappeared"⟩
    | .ok (_, bytes) => .ok bytes

/-! ### Pairs -/

/-- `littlefs_rev_newer`. -/
def littlefsRevNewer (a b : ℕ) : Bool := 0 < sub32 a b && sub32 a b < 2 ^ 31

/-- What a move that lost power makes of the best match. -/
def littlefsMovedTag (data : LittlefsData) (mdir : LittlefsMdir) (besttag : ℕ) : ℕ :=
  if littlefsMoveHere data mdir then
    if littlefsTagId data.gtag = littlefsTagId besttag then besttag ||| 0x80000000
    else if besttag ≠ LITTLEFS_TAG_INVALID ∧ littlefsTagId data.gtag < littlefsTagId besttag then
      sub32 besttag (littlefsMktag 0 1 0)
    else besttag
  else besttag

/-- The part of `littlefs_dir_fetchmatch` behind a scan that found a commit; the tag is 0 where
there is no match. -/
def littlefsFetchEnd (data : LittlefsData) (scanned : LittlefsMdir × ℕ) :
    LittlefsStatus (LittlefsMdir × ℕ) :=
  let besttag := littlefsMovedTag data scanned.1 scanned.2
  if littlefsTagIsvalid besttag then .ok (scanned.1, besttag)
  else if littlefsTagId besttag < scanned.1.count then .noent
  else .ok (scanned.1, 0)

/-- A pair of which nothing is read yet. -/
def LittlefsMdir.fresh (pair : ℕ × ℕ) (rev : ℕ) : LittlefsMdir where
  pair
  rev
  off := 0
  etag := 0
  tail := (LITTLEFS_BLOCK_NULL, LITTLEFS_BLOCK_NULL)
  count := 0
  split := false

/-- The pair with the newer block in front, and the revisions in this order. -/
def littlefsNewerFirst (fs : LittlefsFs) (pair : ℕ × ℕ) : (ℕ × ℕ) × ℕ × ℕ :=
  let rev (block : ℕ) : ℕ := ((fs.revision block).toOption).getD 0
  if (fs.revision pair.2).toOption.isSome ∧ littlefsRevNewer (rev pair.2) (rev pair.1) then
    ((pair.2, pair.1), rev pair.2, rev pair.1)
  else (pair, rev pair.1, rev pair.2)

/-- `littlefs_dir_fetchmatch`. -/
def littlefsDirFetchmatch (fs : LittlefsFs) (pair : ℕ × ℕ) (fmask ftag : ℕ)
    (cb : Option (ℕ → Buf → LittlefsCmp)) : LittlefsStatus (LittlefsMdir × ℕ) :=
  if fs.blockCount ≤ pair.1 ∨ fs.blockCount ≤ pair.2 then
    .err ⟨.badFs, "littlefs: metadata pair out of range"⟩
  else
    let (pair, rev, revTwin) := littlefsNewerFirst fs pair
    let scanned := littlefsMdirScan fs.toLittlefsData (.fresh pair rev) fmask ftag cb
      LITTLEFS_TAG_INVALID
    if scanned.1.off ≠ 0 then littlefsFetchEnd fs.toLittlefsData scanned
    else
      -- nothing usable in this block
      let scanned := littlefsMdirScan fs.toLittlefsData (.fresh (pair.2, pair.1) revTwin) fmask ftag
        cb scanned.2
      if scanned.1.off ≠ 0 then littlefsFetchEnd fs.toLittlefsData scanned
      else .err ⟨.badFs, "littlefs: corrupted metadata pair"⟩

/-- `littlefs_dir_fetch`. -/
def littlefsDirFetch (fs : LittlefsFs) (pair : ℕ × ℕ) : LittlefsStatus LittlefsMdir :=
  match littlefsDirFetchmatch fs pair LITTLEFS_TAG_INVALID LITTLEFS_TAG_INVALID none with
  | .err e => .err e
  | .noent => .noent
  | .ok (mdir, _) => .ok mdir

/-- `littlefs_name_match`. -/
def littlefsNameMatch (name : List UInt8) (tag : ℕ) (entry : Buf) : LittlefsCmp :=
  let diff := min name.length (littlefsTagSize tag)
  let here := (List.range diff).map entry
  if here ≠ name.take diff then if here < name.take diff then .lt else .gt
  else if name.length < littlefsTagSize tag then .lt
  else if littlefsTagSize tag < name.length then .gt
  else .eq

/-! ### Directories -/

/-- The loop of `grub_littlefs_dir` over the `n` ids of a pair from `id` on: what the hook is given,
and the error it ends with. -/
def littlefsListFrom (data : LittlefsData) (mdir : LittlefsMdir) :
    ℕ → ℕ → List (List UInt8 × LittlefsNode) × Option GrubError
  | 0, _ => ([], none)
  | n + 1, id =>
    match littlefsDirGetinfo data mdir id with
    | .err e => ([], some e)
    | .noent => littlefsListFrom data mdir n (id + 1)
    | .ok info =>
      let rest := littlefsListFrom data mdir n (id + 1)
      (info :: rest.1, rest.2)

/-- What `grub_littlefs_dir` gives the hook of a pair. -/
def littlefsListPair (data : LittlefsData) (mdir : LittlefsMdir) :
    List (List UInt8 × LittlefsNode) × Option GrubError :=
  littlefsListFrom data mdir mdir.count 0

/-- A round of `littlefs_lookup_file`: the node, or `none` if the name is in none of the pairs, or
the pair to go on behind. -/
def littlefsFindPair (fs : LittlefsFs) (pair : ℕ × ℕ) (name : List UInt8) :
    LittlefsStatus (LittlefsNode ⊕ LittlefsMdir) :=
  match littlefsDirFetchmatch fs pair (littlefsMktag 0x780 0 0)
    (littlefsMktag LITTLEFS_TYPE_NAME 0 0)
    (some (littlefsNameMatch name)) with
  | .err e => .err e
  | .noent => .noent
  | .ok (mdir, tag) =>
    if tag ≠ 0 then
      match littlefsFillNode fs.toLittlefsData mdir tag with
      | .err e => .err e
      | .noent => .noent
      | .ok node => .ok (.inl node)
    else if mdir.split then .ok (.inr mdir)
    else .noent

/-- `struct littlefs_tortoise`. -/
structure LittlefsTortoise where
  pair : ℕ × ℕ
  i : ℕ
  period : ℕ

/-- `littlefs_tortoise_init`. -/
def LittlefsTortoise.init : LittlefsTortoise where
  pair := (LITTLEFS_BLOCK_NULL, LITTLEFS_BLOCK_NULL)
  i := 1
  period := 1

/-- `littlefs_tortoise_step`; the counters wrap around. -/
def littlefsTortoiseStep (t : LittlefsTortoise) (pair : ℕ × ℕ) :
    Except GrubError LittlefsTortoise :=
  if pair = t.pair ∨ pair = (t.pair.2, t.pair.1) then
    .error ⟨.badFs, "littlefs: cycle in metadata pair list"⟩
  else if t.i = t.period then .ok { pair, i := 1, period := t.period * 2 % 2 ^ 32 }
  else .ok { t with i := (t.i + 1) % 2 ^ 32 }

/-- The loop of `grub_littlefs_dir` over so many pairs at most: what the hook is given, and once the
loop is left the error, if any. -/
def littlefsDirFrom (fs : LittlefsFs) : ℕ → LittlefsTortoise → ℕ × ℕ →
    List (List UInt8 × LittlefsNode) × Option (Option GrubError)
  | 0, _, _ => ([], none)
  | rounds + 1, t, pair =>
    match littlefsTortoiseStep t pair with
    | .error e => ([], some (some e))
    | .ok t =>
      match littlefsDirFetch fs pair with
      | .err e => ([], some (some e))
      | .noent => ([], some none)
      | .ok mdir =>
        let infos := littlefsListPair fs.toLittlefsData mdir
        if infos.2 ≠ none ∨ mdir.split = false then (infos.1, some infos.2)
        else
          let rest := littlefsDirFrom fs rounds t mdir.tail
          (infos.1 ++ rest.1, rest.2)

/-- `grub_littlefs_dir` of the directory that starts with the pair. -/
def grubLittlefsDir (fs : LittlefsFs) (rounds : ℕ) (pair : ℕ × ℕ) :
    List (List UInt8 × LittlefsNode) × Option (Option GrubError) :=
  littlefsDirFrom fs rounds .init pair

/-- The loop of `littlefs_lookup_file` over so many pairs at most, once it is left. -/
def littlefsLookupFrom (fs : LittlefsFs) (name : List UInt8) : ℕ → LittlefsTortoise → ℕ × ℕ →
    Option (Except GrubError (Option LittlefsNode))
  | 0, _, _ => none
  | rounds + 1, t, pair =>
    match littlefsTortoiseStep t pair with
    | .error e => some (.error e)
    | .ok t =>
      match littlefsFindPair fs pair name with
      | .err e => some (.error e)
      | .noent => some (.ok none)
      | .ok (.inl node) => some (.ok (some node))
      | .ok (.inr mdir) => littlefsLookupFrom fs name rounds t mdir.tail

/-- `littlefs_lookup_file`. -/
def littlefsLookupFile (fs : LittlefsFs) (rounds : ℕ) (pair : ℕ × ℕ) (name : List UInt8) :
    Option (Except GrubError (Option LittlefsNode)) :=
  if LITTLEFS_NAME_MAX < name.length then some (.ok none)
  else littlefsLookupFrom fs name rounds .init pair

end FsRover
