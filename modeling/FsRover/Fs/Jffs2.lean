import FsRover.Grub
import FsRover.Lib.Bisect
import FsRover.Lib.Crc32
import FsRover.Lib.Fragments
import FsRover.Lib.History
import FsRover.Lib.MergeRuns
import Mathlib.Logic.Function.Basic

/-!
# JFFS2 files

JFFS2 is a log: each inode node of the media says which bytes of the file it writes, and the size of
the file then. An open file is the list of fragments that the nodes of its inode, sorted by version,
leave. The ends of fragments are sums of 32 bits.

## Main definitions

* `FsRover.jffs2ScanMedia` : the inode nodes on the media.
* `FsRover.jffs2SortRefs`, `FsRover.jffs2InoRefs` : the nodes of an inode in their order.
* `FsRover.jffs2Decode`, `FsRover.jffs2ReadFile` : the data of a node, and reads with the node
  decoded last.
-/

namespace FsRover

/-! ### The media -/

/-- The part of `struct grub_jffs2_data` that the nodes are read with. -/
structure Jffs2Media where
  disk : SizedDisk
  swap : Bool
  size : ℕ

/-- `grub_jffs2_get16`. -/
def Jffs2Media.get16 (media : Jffs2Media) (p : Buf) (i : ℕ) : ℕ :=
  if media.swap then lostBe16 p i else lostLe16 p i

/-- `grub_jffs2_get32`. -/
def Jffs2Media.get32 (media : Jffs2Media) (p : Buf) (i : ℕ) : ℕ :=
  if media.swap then lostBe32 p i else lostLe32 p i

/-- `grub_jffs2_crc` with the seed 0. -/
def jffs2Crc (bytes : List UInt8) : ℕ :=
  (bytes.foldl (fun crc b =>
    Crc32.shift 8 ((crc ^^^ b.toUInt32) &&& 0xff) ^^^ (crc >>> 8)) 0).toNat

/-- `struct grub_jffs2_ref`. -/
structure Jffs2Ref where
  off : ℕ
  ino : ℕ
  version : ℕ
  foffset : ℕ
  dsize : ℕ
  isize : ℕ
  deriving DecidableEq

/-- The inode node `grub_jffs2_scan_media` records at `pos`, where a node of `totlen` bytes is. -/
def jffs2ScanRef (media : Jffs2Media) (pos totlen : ℕ) : Option Jffs2Ref :=
  let p := media.disk.bytes.from pos
  let csize := media.get32 p 48
  let dsize := media.get32 p 52
  if media.get16 p 2 = 0xe002 ∧ 68 ≤ totlen ∧ media.get32 p 64 = jffs2Crc (p.list 0 60)
      ∧ ¬ (totlen - 68 < csize ∨ 0x100000 < dsize ∨ (p 56 = 0 ∧ csize ≠ dsize))
      ∧ media.get32 p 12 ≠ 0 then
    some ⟨pos, media.get32 p 12, media.get32 p 16, media.get32 p 44, dsize, media.get32 p 28⟩
  else none

/-- The length of the node at `pos`, if `grub_jffs2_scan_media` takes what is there for one. -/
def jffs2NodeLen (media : Jffs2Media) (pos : ℕ) : Option ℕ :=
  let p := media.disk.bytes.from pos
  let totlen := media.get32 p 4
  if media.get16 p 0 = 0x1985 ∧ media.get32 p 8 = jffs2Crc (p.list 0 8) ∧ 12 ≤ totlen
      ∧ totlen ≤ media.size - pos then some totlen
  else none

/-- The loop of `grub_jffs2_scan_media` from `pos` on; `none` when it does not end. -/
def jffs2ScanFrom (media : Jffs2Media) : ℕ → ℕ → Option (List Jffs2Ref)
  | 0, _ => none
  | fuel + 1, pos =>
    if pos + 12 ≤ media.size then
      match jffs2NodeLen media pos with
      | none => jffs2ScanFrom media fuel (pos + 4)
      | some totlen =>
        (jffs2ScanFrom media fuel (pos + u32 (totlen + 3) / 4 * 4)).map
          ((jffs2ScanRef media pos totlen).toList ++ ·)
    else some []

/-- The inode nodes of `grub_jffs2_scan_media`. Each node takes four bytes at least, so a scan that
makes more steps does not end. -/
def jffs2ScanMedia (media : Jffs2Media) : Option (List Jffs2Ref) :=
  jffs2ScanFrom media (media.size / 4 + 1) 0

/-! ### Order -/

/-- `grub_jffs2_ref_cmp (a, b) <= 0`. -/
def jffs2RefLe (a b : Jffs2Ref) : Bool :=
  if a.ino ≠ b.ino then a.ino < b.ino else a.version ≤ b.version

/-- `grub_jffs2_sort_refs`. -/
def jffs2SortRefs (refs : List Jffs2Ref) : List Jffs2Ref := MergeRuns.sort jffs2RefLe refs

/-- `grub_jffs2_ref_lower` for version 0. -/
def jffs2RefLower (refs : List Jffs2Ref) (ino : ℕ) : ℕ :=
  Bisect.search (fun i => refs[i]?.any fun ref => ref.ino < ino) refs.length

/-- The nodes of an inode in `grub_jffs2_open_ino`. -/
def jffs2InoRefs (refs : List Jffs2Ref) (ino : ℕ) : List Jffs2Ref :=
  let lo := jffs2RefLower refs ino
  let hi := if ino = 0xffffffff then refs.length else jffs2RefLower refs (ino + 1)
  (refs.drop lo).take (hi - lo)

/-! ### Fragments -/

/-- The fields `node_start` and `node_off` of a fragment. -/
structure Jffs2Node where
  nodeStart : ℕ
  nodeOff : ℕ
  deriving DecidableEq

/-- `struct grub_jffs2_frag`. -/
abbrev Jffs2Frag := Fragments.Frag Jffs2Node

/-- The end of a fragment, in 32 bits. -/
def jffs2Tail (f : Jffs2Frag) : ℕ := u32 (f.start + f.len)

/-- The fragment of all that a node writes. -/
def jffs2NodeFrag (ref : Jffs2Ref) : Jffs2Frag := ⟨ref.foffset, ref.dsize, ⟨ref.foffset, ref.off⟩⟩

/-- The second loop of `grub_jffs2_frag_insert`: drop what ends by `stop`, and trim what crosses. -/
def jffs2FragDrop (stop : ℕ) : List Jffs2Frag → List Jffs2Frag
  | [] => []
  | f :: frags =>
    if f.start < stop then
      if stop < jffs2Tail f then { f with start := stop, len := jffs2Tail f - stop } :: frags
      else jffs2FragDrop stop frags
    else f :: frags

/-- The index of the first fragment that ends after `start`, as `grub_jffs2_frag_insert` finds
it. -/
def jffs2FragIndex (frags : List Jffs2Frag) (start : ℕ) : ℕ :=
  Bisect.search (fun i => frags[i]?.any fun f => jffs2Tail f ≤ start) frags.length

/-- `grub_jffs2_frag_insert`. -/
def jffs2FragInsert (frags : List Jffs2Frag) (ref : Jffs2Ref) : List Jffs2Frag :=
  let start := ref.foffset
  let stop := u32 (ref.foffset + ref.dsize)
  let i := jffs2FragIndex frags start
  match frags.drop i with
  | [] => frags.take i ++ [jffs2NodeFrag ref]
  | f :: rest =>
    if f.start < start then
      let left : Jffs2Frag := { f with len := start - f.start }
      if stop < jffs2Tail f then
        let right : Jffs2Frag := { f with start := stop, len := jffs2Tail f - stop }
        frags.take i ++ left :: jffs2NodeFrag ref :: jffs2FragDrop stop (right :: rest)
      else frags.take i ++ left :: jffs2NodeFrag ref :: jffs2FragDrop stop rest
    else frags.take i ++ jffs2NodeFrag ref :: jffs2FragDrop stop (f :: rest)

/-- The loop of `grub_jffs2_frag_truncate`, from the last fragment on. -/
def jffs2TruncateRev (isize : ℕ) : List Jffs2Frag → List Jffs2Frag
  | [] => []
  | f :: frags =>
    if jffs2Tail f ≤ isize then f :: frags
    else if isize ≤ f.start then jffs2TruncateRev isize frags
    else { f with len := isize - f.start } :: frags

/-- `grub_jffs2_frag_truncate`. -/
def jffs2FragTruncate (frags : List Jffs2Frag) (isize : ℕ) : List Jffs2Frag :=
  (jffs2TruncateRev isize frags.reverse).reverse

/-- `struct grub_jffs2_file`, without the node decoded last. -/
structure Jffs2File where
  frags : List Jffs2Frag
  isize : ℕ
  deriving DecidableEq

/-- What `grub_jffs2_open_ino` does with a node. -/
def jffs2Replay (file : Jffs2File) (ref : Jffs2Ref) : Jffs2File :=
  let frags := if ref.isize < file.isize then jffs2FragTruncate file.frags ref.isize else file.frags
  ⟨if ref.dsize ≠ 0 then jffs2FragInsert frags ref else frags, ref.isize⟩

/-- `grub_jffs2_open_ino` on the sorted nodes. -/
def jffs2OpenIno (refs : List Jffs2Ref) (ino : ℕ) : Jffs2File :=
  let file := (jffs2InoRefs refs ino).foldl jffs2Replay ⟨[], 0⟩
  { file with frags := jffs2FragTruncate file.frags file.isize }

/-! ### Data -/

/-- `grub_zlib_decompress`, which may fail without setting `grub_errno`, and
`lzo1x_decompress_safe`. -/
structure Jffs2Codec where
  zlib : List UInt8 → ℕ → Except (Option GrubError) (List UInt8)
  lzo : List UInt8 → ℕ → Option (List UInt8)

/-- Repeat `n` bytes of the output from `back` on. -/
def jffs2Repeat : ℕ → ℕ → List UInt8 → List UInt8
  | 0, _, out => out
  | n + 1, back, out => jffs2Repeat n (back + 1) (out ++ [out.getD back 0])

/-- The loop for `JFFS2_COMPR_RTIME`; each pass writes a byte at least. -/
def jffs2Rtime (cbuf : List UInt8) (dsize : ℕ) :
    ℕ → (UInt8 → ℕ) → ℕ → List UInt8 → Option (List UInt8)
  | 0, _, _, out => some out
  | fuel + 1, positions, pos, out =>
    if out.length < dsize then
      if cbuf.length < pos + 2 then none
      else
        let value := cbuf.getD pos 0
        let count := (cbuf.getD (pos + 1) 0).toNat
        let outpos := out.length + 1
        let backoffs := positions value
        if dsize - outpos < count ∨ (count ≠ 0 ∧ outpos ≤ backoffs) then none
        else
          jffs2Rtime cbuf dsize fuel (Function.update positions value outpos) (pos + 2)
            (jffs2Repeat count backoffs (out ++ [value]))
    else some out

def jffs2Corrupt : GrubError := ⟨.badFs, "jffs2: corrupt data node"⟩

/-- The output of a decompression, if there are `dsize` bytes of it. -/
def jffs2Whole (dsize : ℕ) (out : List UInt8) : Except GrubError (List UInt8) :=
  if out.length < dsize then .error jffs2Corrupt else .ok (out.take dsize)

/-- The switch of `grub_jffs2_load_node`: the `dsize` bytes that `cbuf` is decompressed to. -/
def jffs2Unpack (codec : Jffs2Codec) (compr dsize : ℕ) (cbuf : List UInt8) :
    Except GrubError (List UInt8) :=
  if compr = 0 ∨ compr = 4 then jffs2Whole dsize cbuf
  else if compr = 2 then
    match jffs2Rtime cbuf dsize dsize (fun _ => 0) 0 [] with
    | none => .error jffs2Corrupt
    | some out => jffs2Whole dsize out
  else if compr = 6 then
    match codec.zlib cbuf dsize with
    | .error e => .error (e.getD ⟨.badFs, "jffs2: read error"⟩)
    | .ok out => jffs2Whole dsize out
  else if compr = 7 then
    match codec.lzo cbuf dsize with
    | none => .error jffs2Corrupt
    | some out => if out.length = dsize then .ok out else .error jffs2Corrupt
  else
    .error ⟨.notImplementedYet,
      "jffs2: compression type " ++ toString compr ++ " not supported"⟩

/-- `grub_jffs2_load_node` of a node that is not decoded yet: the bytes the node writes. -/
def jffs2Decode (codec : Jffs2Codec) (media : Jffs2Media) (off : ℕ) :
    Except GrubError (List UInt8) := do
  let hdr ← media.disk.read off 68
  let csize := media.get32 hdr 48
  let dsize := media.get32 hdr 52
  let compr := (hdr 56).toNat
  if compr = 1 then .ok (List.replicate dsize 0)
  else
    let p ← media.disk.read (off + 68) csize
    let cbuf := p.list 0 csize
    if media.get32 hdr 60 ≠ jffs2Crc cbuf then .error ⟨.badFs, "jffs2: bad data CRC"⟩
    else jffs2Unpack codec compr dsize cbuf

/-- The node decoded last: `cached_off` with `dbuf`, when `cache_valid`. -/
abbrev Jffs2Cache := Option (ℕ × List UInt8)

/-- `grub_jffs2_load_node`. -/
def jffs2LoadNode (codec : Jffs2Codec) (media : Jffs2Media) (cache : Jffs2Cache) (off : ℕ) :
    Except GrubError (List UInt8) × Jffs2Cache :=
  match cache.filter (·.1 = off) with
  | some (_, node) => (.ok node, cache)
  | none =>
    match jffs2Decode codec media off with
    | .error e => (.error e, none)
    | .ok node => (.ok node, some (off, node))

/-- The bytes `bytes` written at index `i`. -/
def jffs2Copy (buf : List UInt8) (i : ℕ) (bytes : List UInt8) : List UInt8 :=
  buf.take i ++ bytes ++ buf.drop (i + bytes.length)

/-- The loop of `grub_jffs2_read_file`. The error `none` is a copy from outside of the bytes that
the node was decoded to. -/
def jffs2ReadFrags (codec : Jffs2Codec) (media : Jffs2Media) (start stop : ℕ) :
    List Jffs2Frag → Jffs2Cache → List UInt8 →
      Except (Option GrubError) (List UInt8) × Jffs2Cache
  | [], cache, buf => (.ok buf, cache)
  | f :: frags, cache, buf =>
    if jffs2Tail f ≤ start then jffs2ReadFrags codec media start stop frags cache buf
    else if stop ≤ f.start then (.ok buf, cache)
    else
      let cs := if start < f.start then f.start else start
      let ce := if jffs2Tail f < stop then jffs2Tail f else stop
      match jffs2LoadNode codec media cache f.tag.nodeOff with
      | (.error e, cache') => (.error (some e), cache')
      | (.ok node, cache') =>
        let i := sub32 cs f.tag.nodeStart
        if node.length < i + sub32 ce cs then (.error none, cache')
        else
          jffs2ReadFrags codec media start stop frags cache'
            (jffs2Copy buf (cs - start) ((node.drop i).take (sub32 ce cs)))

def jffs2PastEnd : GrubError := ⟨.outOfRange, "read past end of file"⟩

/-- `grub_jffs2_read_file` of `len` bytes at `pos`, for the request `(pos, len)`. -/
def jffs2ReadFile (codec : Jffs2Codec) (media : Jffs2Media) (file : Jffs2File)
    (cache : Jffs2Cache) (request : ℕ × ℕ) :
    Except (Option GrubError) (List UInt8) × Jffs2Cache :=
  if file.isize ≤ request.1 ∨ file.isize - request.1 < request.2 then
    (.error (some jffs2PastEnd), cache)
  else if request.2 = 0 then (.ok [], cache)
  else
    jffs2ReadFrags codec media request.1 (request.1 + request.2) file.frags cache
      (List.replicate request.2 0)

end FsRover
