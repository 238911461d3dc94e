import FsRover.Bytes
import FsRover.Grub

/-!
# The metadata log of littlefs

A metadata block is a log of commits. Each tag is stored as its difference to the tag before it, so
that `littlefs_mdir_scan` reads the log forwards and `littlefs_dir_getslice` reads it backwards.
Tags are 32-bit words; a mask and a shift are a quotient and a remainder here.

## Main definitions

* `FsRover.littlefsTagType1` … `FsRover.littlefsTagDsize` : the fields of a tag.
* `FsRover.LittlefsData`, `FsRover.LittlefsMdir` : the file system and a metadata pair.
* `FsRover.littlefsDirGetslice` : the walk back.
* `FsRover.littlefsMdirScan` : the replay.
-/

namespace FsRover

def LITTLEFS_BLOCK_NULL : ℕ := 0xffffffff
def LITTLEFS_TAG_INVALID : ℕ := 0xffffffff
def LITTLEFS_TYPE_NAME : ℕ := 0x000
def LITTLEFS_TYPE_STRUCT : ℕ := 0x200
def LITTLEFS_TYPE_SPLICE : ℕ := 0x400
def LITTLEFS_TYPE_TAIL : ℕ := 0x600
def LITTLEFS_TYPE_CREATE : ℕ := 0x401
def LITTLEFS_TYPE_DELETE : ℕ := 0x4ff
def LITTLEFS_TYPE_CCRC : ℕ := 0x500

/-! ### Tags -/

/-- `LITTLEFS_MKTAG`; the fields do not overlap. -/
def littlefsMktag (type id size : ℕ) : ℕ := type * 2 ^ 20 + id * 2 ^ 10 + size

/-- The masks of `littlefs_dir_getinfo` and `littlefs_fill_node`. -/
def LITTLEFS_NAME_MASK : ℕ := littlefsMktag 0x780 0x3ff 0
def LITTLEFS_STRUCT_MASK : ℕ := littlefsMktag 0x700 0x3ff 0

def littlefsTagIsvalid (tag : ℕ) : Bool := tag / 2 ^ 31 % 2 = 0
def littlefsTagIsdelete (tag : ℕ) : Bool := tag % 2 ^ 10 = 0x3ff
def littlefsTagType1 (tag : ℕ) : ℕ := tag / 2 ^ 28 % 2 ^ 3 * 2 ^ 8
def littlefsTagType2 (tag : ℕ) : ℕ := tag / 2 ^ 27 % 2 ^ 4 * 2 ^ 7
def littlefsTagType3 (tag : ℕ) : ℕ := tag / 2 ^ 20 % 2 ^ 11
def littlefsTagChunk (tag : ℕ) : ℕ := tag / 2 ^ 20 % 2 ^ 8
def littlefsTagId (tag : ℕ) : ℕ := tag / 2 ^ 10 % 2 ^ 10
def littlefsTagSize (tag : ℕ) : ℕ := tag % 2 ^ 10

/-- `littlefs_tag_splice`: the chunk with its sign extended to 32 bits. -/
def littlefsTagSplice (tag : ℕ) : ℕ :=
  if littlefsTagChunk tag < 0x80 then littlefsTagChunk tag
  else 2 ^ 32 - 0x100 + littlefsTagChunk tag

/-- `littlefs_tag_dsize`. -/
def littlefsTagDsize (tag : ℕ) : ℕ :=
  4 + littlefsTagSize (tag + if littlefsTagIsdelete tag then 1 else 0)

/-! ### Blocks -/

/-- `struct grub_littlefs_data`; `block` is what `littlefs_mread` finds in a block, or the error of
the disk. -/
structure LittlefsData where
  blockSize : ℕ
  blockCount : ℕ
  gtag : ℕ
  gpair : ℕ × ℕ
  block : ℕ → Except GrubError Buf

/-- `struct littlefs_mdir`. -/
structure LittlefsMdir where
  pair : ℕ × ℕ
  rev : ℕ
  off : ℕ
  etag : ℕ
  tail : ℕ × ℕ
  count : ℕ
  split : Bool
  deriving DecidableEq

/-- `enum littlefs_status` with the results. -/
inductive LittlefsStatus (α : Type)
  | ok (a : α)
  | noent
  | err (e : GrubError)
  deriving DecidableEq

/-- `littlefs_mread`. -/
def littlefsMread (data : LittlefsData) (block off size : ℕ) : Except GrubError Buf :=
  if data.blockCount ≤ block then .error ⟨.badFs, "littlefs: block out of range"⟩
  else
    match data.block block with
    | .error e => .error e
    | .ok blk =>
      if data.blockSize < off ∨ data.blockSize - off < size then
        .error ⟨.badFs, "littlefs: read outside block"⟩
      else .ok (blk.from off)

/-- `littlefs_pair_cmp (a, b) == 0`. -/
def littlefsPairSame (a b : ℕ × ℕ) : Bool := a.1 = b.1 || a.2 = b.2 || a.1 = b.2 || a.2 = b.1

/-- A move out of the pair that lost power is recorded. -/
def littlefsMoveHere (data : LittlefsData) (mdir : LittlefsMdir) : Bool :=
  littlefsTagType1 data.gtag ≠ 0 && littlefsPairSame data.gpair mdir.pair

/-! ### Backwards -/

/-- The payload of the tag at `off`: `gsize` bytes from `goff` on, with zeros past its end. -/
def littlefsPayload (blk : Buf) (off tag goff gsize : ℕ) : List UInt8 :=
  let diff := min (littlefsTagSize tag - goff) gsize
  (List.range diff).map (fun i => blk (off + 4 + goff + i)) ++ List.replicate (gsize - diff) 0

/-- The loop of `littlefs_dir_getslice`; `fuel` bounds the rounds, of which each goes back by four
bytes at least. -/
def littlefsSliceLoop (data : LittlefsData) (mdir : LittlefsMdir) (gmask gtag goff gsize : ℕ) :
    ℕ → ℕ → ℕ → ℕ → LittlefsStatus (ℕ × List UInt8)
  | 0, _, _, _ => .noent
  | fuel + 1, off, ntag, gdiff =>
    if off < 4 + littlefsTagDsize ntag then .noent
    else
      let off := off - littlefsTagDsize ntag
      let tag := ntag
      match littlefsMread data mdir.pair.1 off 4 with
      | .error e => .err e
      | .ok raw =>
        let ntag := (lostBe32 raw 0 ^^^ tag) % 2 ^ 31
        let renumbers := littlefsTagId gmask ≠ 0 ∧ littlefsTagType1 tag = LITTLEFS_TYPE_SPLICE
          ∧ littlefsTagId tag ≤ littlefsTagId (sub32 gtag gdiff)
        if renumbers
          ∧ tag = littlefsMktag LITTLEFS_TYPE_CREATE (littlefsTagId (sub32 gtag gdiff)) 0
            then .noent
        else
          let gdiff := if renumbers then add32 gdiff (littlefsTagSplice tag * 2 ^ 10) else gdiff
          if gmask &&& tag = gmask &&& sub32 gtag gdiff then
            if littlefsTagIsdelete tag then .noent
            else
              let diff := min (littlefsTagSize tag - goff) gsize
              if diff = 0 then .ok (add32 tag gdiff, List.replicate gsize 0)
              else
                match littlefsMread data mdir.pair.1 (off + 4 + goff) diff with
                | .error e => .err e
                | .ok payload =>
                  .ok (add32 tag gdiff, (List.range diff).map payload ++ List.replicate
                    (gsize - diff) 0)
          else littlefsSliceLoop data mdir gmask gtag goff gsize fuel off ntag gdiff

/-- `littlefs_dir_getslice`: the tag and the payload. -/
def littlefsDirGetslice (data : LittlefsData) (mdir : LittlefsMdir) (gmask gtag goff gsize : ℕ) :
    LittlefsStatus (ℕ × List UInt8) :=
  let moved := littlefsMoveHere data mdir && littlefsTagId gmask ≠ 0
  if moved ∧ littlefsTagId data.gtag = littlefsTagId gtag then .noent
  else
    let gdiff :=
      if moved ∧ littlefsTagId data.gtag < littlefsTagId gtag then sub32 0
        (littlefsMktag 0 1 0) else 0
    littlefsSliceLoop data mdir gmask gtag goff gsize mdir.off mdir.off mdir.etag gdiff

/-! ### Forwards -/

/-- `rtable` of `littlefs_crc`. -/
def littlefsRtable : List UInt32 :=
  [0x00000000, 0x1db71064, 0x3b6e20c8, 0x26d930ac, 0x76dc4190, 0x6b6b51f4, 0x4db26158, 0x5005713c,
    0xedb88320, 0xf00f9344, 0xd6d6a3e8, 0xcb61b38c, 0x9b64c2b0, 0x86d3d2d4, 0xa00ae278, 0xbdbdf21c]

/-- `littlefs_crc` over `size` bytes from `off` on. -/
def littlefsCrc (crc : UInt32) (blk : Buf) (off : ℕ) : ℕ → UInt32
  | 0 => crc
  | size + 1 =>
    let nibble (crc : UInt32) (x : UInt8) : UInt32 :=
      (crc >>> 4) ^^^ littlefsRtable.getD ((crc ^^^ x.toUInt32) &&& 0xf).toNat 0
    littlefsCrc (nibble (nibble crc (blk off)) (blk off >>> (4 : UInt8))) blk (off + 1) size

/-- What the comparison hook of `littlefs_mdir_scan` says of a payload. -/
inductive LittlefsCmp
  | eq | lt | gt
  deriving DecidableEq

/-- The variables of `littlefs_mdir_scan`, with what it publishes. -/
structure LittlefsScan where
  off : ℕ
  ptag : ℕ
  crc : UInt32
  tempbesttag : ℕ
  temptail : ℕ × ℕ
  tempcount : ℕ
  tempsplit : Bool
  mdir : LittlefsMdir
  besttag : ℕ

/-- What a tag other than a checksum does to the entry count, the tail and the best match. -/
def littlefsScanTag (blk : Buf) (tag : ℕ) (s : LittlefsScan) : Option LittlefsScan :=
  if littlefsTagType1 tag = LITTLEFS_TYPE_NAME then
    some { s with
      tempcount := if s.tempcount ≤ littlefsTagId tag then (littlefsTagId tag + 1) % 2 ^ 16
        else s.tempcount }
  else if littlefsTagType1 tag = LITTLEFS_TYPE_SPLICE then
    some { s with
      tempcount := (s.tempcount + littlefsTagSplice tag) % 2 ^ 16
      tempbesttag :=
        if tag = littlefsMktag LITTLEFS_TYPE_DELETE (littlefsTagId s.tempbesttag) 0 then
          s.tempbesttag ||| 0x80000000
        else if s.tempbesttag ≠ LITTLEFS_TAG_INVALID
          ∧ littlefsTagId tag ≤ littlefsTagId s.tempbesttag then
          add32 s.tempbesttag (littlefsTagSplice tag * 2 ^ 10)
        else s.tempbesttag }
  else if littlefsTagType1 tag = LITTLEFS_TYPE_TAIL then
    if littlefsTagDsize tag < 12 then none
    else
      some { s with
        tempsplit := littlefsTagChunk tag % 2 = 1
        temptail := (lostLe32 blk (s.off + 4), lostLe32 blk (s.off + 8)) }
  else some s

/-- What the comparison makes of the best match. -/
def littlefsScanMatch (tag : ℕ) (res : LittlefsCmp) (tempbesttag : ℕ) : ℕ :=
  if res = .eq then tag
  else if littlefsMktag 0x7ff 0x3ff 0 &&& tag = littlefsMktag 0x7ff 0x3ff 0 &&& tempbesttag then
    LITTLEFS_TAG_INVALID
  else if res = .gt ∧ littlefsTagId tag ≤ littlefsTagId tempbesttag then tag ||| 0x80000000
  else tempbesttag

/-- One round of the loop of `littlefs_mdir_scan`; `none` leaves it. -/
def littlefsScanStep (blockSize : ℕ) (blk : Buf) (fmask ftag : ℕ)
    (cb : Option (ℕ → Buf → LittlefsCmp)) (s : LittlefsScan) : Option LittlefsScan :=
  let off := s.off + littlefsTagDsize s.ptag
  let tag := lostBe32 blk off ^^^ s.ptag
  if blockSize < off + 4 ∨ littlefsTagIsvalid tag = false
    ∨ blockSize - off < littlefsTagDsize tag then none
  else
    let crc := littlefsCrc s.crc blk off 4
    if littlefsTagType2 tag = LITTLEFS_TYPE_CCRC then
      if littlefsTagDsize tag < 8 ∨ crc.toNat ≠ lostLe32 blk (off + 4) then none
      else
        -- the tag says which valid bit the next commit has to use
        let ptag := tag ^^^ (littlefsTagChunk tag % 2 * 2 ^ 31)
        some { s with
          off, ptag
          crc := 0xffffffff
          besttag := s.tempbesttag
          mdir := { s.mdir with
            off := off + littlefsTagDsize tag
            etag := ptag
            count := s.tempcount
            tail := s.temptail
            split := s.tempsplit } }
    else
      let crc := littlefsCrc crc blk (off + 4) (littlefsTagDsize tag - 4)
      (littlefsScanTag blk tag { s with off, ptag := tag, crc }).map fun s =>
        match cb with
        | none => s
        | some cb =>
          if fmask &&& tag = fmask &&& ftag then
            { s with
              tempbesttag := littlefsScanMatch tag (cb tag (blk.from (off + 4))) s.tempbesttag }
          else s

/-- The loop of `littlefs_mdir_scan`; each round goes on by four bytes at least. -/
def littlefsScanLoop (blockSize : ℕ) (blk : Buf) (fmask ftag : ℕ)
    (cb : Option (ℕ → Buf → LittlefsCmp)) : ℕ → LittlefsScan → LittlefsScan
  | 0, s => s
  | fuel + 1, s =>
    match littlefsScanStep blockSize blk fmask ftag cb s with
    | none => s
    | some s => littlefsScanLoop blockSize blk fmask ftag cb fuel s

/-- The variables before the loop. -/
def LittlefsScan.init (blk : Buf) (mdir : LittlefsMdir) (besttag : ℕ) : LittlefsScan where
  off := 0
  ptag := LITTLEFS_TAG_INVALID
  crc := littlefsCrc 0xffffffff blk 0 4
  tempbesttag := besttag
  temptail := (LITTLEFS_BLOCK_NULL, LITTLEFS_BLOCK_NULL)
  tempcount := 0
  tempsplit := false
  mdir
  besttag

/-- `littlefs_mdir_scan`: the pair with what was published, and the best match. -/
def littlefsMdirScan (data : LittlefsData) (mdir : LittlefsMdir) (fmask ftag : ℕ)
    (cb : Option (ℕ → Buf → LittlefsCmp)) (besttag : ℕ) : LittlefsMdir × ℕ :=
  match littlefsMread data mdir.pair.1 0 4 with
  | .error _ => (mdir, besttag)
  | .ok blk =>
    let s := littlefsScanLoop data.blockSize blk fmask ftag cb data.blockSize
      (.init blk mdir besttag)
    (s.mdir, s.besttag)

end FsRover
