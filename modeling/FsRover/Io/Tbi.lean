import FsRover.Io.Carrier
import FsRover.Lib.Bisect
import FsRover.Lib.Crc32
import FsRover.Lib.Guards

/-!
# TeraByte images

`tbi.c` shows a full TeraByte backup as a volume, or as a disk with a generated GPT where it holds
more than one partition. Each partition is a stream of blocks, of data or of sparse runs; opening
the image scans the streams into a table of extents. One decoded block is kept from one read to the
next.

The Deflate and Zstandard decoders stand as parameters.

## Main definitions

* `FsRover.TbiPart`, `FsRover.TbiExtent`, `FsRover.TbiImage` : the tables.
* `FsRover.tbiTbStandard`, `FsRover.tbiTbFast`, `FsRover.tbiDecode` : the codecs.
* `FsRover.tbiScanStream`, `FsRover.tbiOpenImage` : opening.
* `FsRover.tbiFindExtent`, `FsRover.tbiRead`, `FsRover.grubTbiRead` : reading.
-/

namespace FsRover

open Guards

def TBI_META_RECORDS_MAX : ℕ := 4096
def TBI_REC_HEADER : ℕ := 12
def TBI_STREAM_HEADER : ℕ := 16
def TBI_BLOCK_MAX : ℕ := 65536
def TBI_SECTOR : ℕ := 512
def TBI_PART_PAYLOAD_MIN : ℕ := 0xfc
def TBI_GPT_ENTRIES : ℕ := 128
def TBI_GPT_SECTORS : ℕ := 33
def TBI_GPT_FIRST_USABLE : ℕ := 34
def TBI_EXTENTS_MAX : ℕ := 64 * 2 ^ 20
def TBI_NO_CACHE : ℕ := 2 ^ 64 - 1

def tbiBadFile (message : String) : GrubError := ⟨.badFileType, message⟩
def tbiBadData (message : String) : GrubError := ⟨.badCompressedData, message⟩

/-- `enum tbi_codec`. -/
inductive TbiCodec
  | standard | deflate | tbFast | zstd
  deriving DecidableEq

/-- `struct tbi_part`. -/
structure TbiPart where
  firstLba : ℕ
  lastLba : ℕ
  streamBase : ℕ
  footer : ℕ
  type : List UInt8
  guid : List UInt8
  mbrType : ℕ

/-- `struct tbi_extent`. -/
structure TbiExtent where
  off : ℕ
  phys : ℕ
  len : ℕ
  storedLen : ℕ
  deriving DecidableEq

/-- `tbi_pread`. -/
def tbiPread (file : GrubFile) (call off len : ℕ) : Except (GrubError × Option Buf) Buf :=
  file.pread call off len ⟨.badDevice, "TBI image truncated"⟩

/-! ### Codecs -/

/-- One step of `tbi_checksum`. -/
def tbiChecksumStep (sum : UInt32) (word : ℕ) : UInt32 :=
  let sum := sum + .ofNat word
  ((sum <<< 1) ||| (sum >>> 31)) ^^^ .ofNat word

/-- `tbi_checksum` of `n` words from `at` on; it is asked for whole words only. -/
def tbiChecksum (p : Buf) : ℕ → ℕ → UInt32 → UInt32
  | 0, _, sum => sum
  | n + 1, i, sum => tbiChecksum p n (i + 4) (tbiChecksumStep sum (lostLe32 p i))

/-- `tbi_std_get_bits`: the value and the next bit. -/
def tbiStdGetBits (input : List UInt8) (bit count : ℕ) : Option (ℕ × ℕ) :=
  let total := input.length * 8
  if 16 < count ∨ total < bit ∨ total - bit < count then none
  else
    let byte := bit / 8
    let word := (List.range 4).foldl (fun w i => w + 2 ^ (8 * i) * (input.getD (byte + i) 0).toNat) 0
    some (word / 2 ^ (bit % 8) % 2 ^ count, bit + count)

/-- The loop of `tbi_std_gamma`, behind that many zeros; it gives up at the sixteenth. -/
def tbiStdGammaFrom (input : List UInt8) : ℕ → ℕ → ℕ → Option (ℕ × ℕ)
  | 0, _, _ => none
  | fuel + 1, zeros, bit =>
    match tbiStdGetBits input bit 1 with
    | none => none
    | some (one, bit) =>
      if one ≠ 0 then
        match tbiStdGetBits input bit zeros with
        | none => none
        | some (suffix, bit) => some (2 ^ zeros + suffix, bit)
      else tbiStdGammaFrom input fuel (zeros + 1) bit

/-- `tbi_std_gamma`. -/
def tbiStdGamma (input : List UInt8) (bit : ℕ) : Option (ℕ × ℕ) := tbiStdGammaFrom input 16 0 bit

/-- Append `len` bytes, each the one `dist` bytes before the end. -/
def tbiCopy (dist : ℕ) : ℕ → List UInt8 → List UInt8
  | 0, out => out
  | len + 1, out => tbiCopy dist len (out ++ [out.getD (out.length - dist) 0])

/-- The distance of a match of `tbi_tb_standard`. -/
def tbiStdDist (input : List UInt8) (len bit : ℕ) : Option (ℕ × ℕ) :=
  if len = 2 then tbiStdGetBits input bit 8
  else
    match tbiStdGamma input bit with
    | none => none
    | some (code, bit) =>
      if 0x100 < code then none
      else
        match tbiStdGetBits input bit 8 with
        | none => none
        | some (low, bit) => some ((code - 1) * 2 ^ 8 + low, bit)

/-- The loop of `tbi_tb_standard`: what is written, and whether it succeeds. Each round writes a byte
at least. -/
def tbiTbStandardFrom (input : List UInt8) (outLen : ℕ) :
    ℕ → ℕ → List UInt8 → List UInt8 × Bool
  | 0, _, out => (out, decide (outLen ≤ out.length))
  | fuel + 1, bit, out =>
    if outLen ≤ out.length then (out, true)
    else
      match tbiStdGetBits input bit 1 with
      | none => (out, false)
      | some (token, bit) =>
        if token = 0 then
          match tbiStdGetBits input bit 8 with
          | none => (out, false)
          | some (code, bit) => tbiTbStandardFrom input outLen fuel bit (out ++ [UInt8.ofNat code])
        else
          match tbiStdGamma input bit with
          | none => (out, false)
          | some (code, bit) =>
            match tbiStdDist input (code + 1) bit with
            | none => (out, false)
            | some (dist, bit) =>
              if dist = 0 ∨ out.length < dist ∨ outLen - out.length < code + 1 then (out, false)
              else tbiTbStandardFrom input outLen fuel bit (tbiCopy dist (code + 1) out)

/-- `tbi_tb_standard`. -/
def tbiTbStandard (input : List UInt8) (outLen : ℕ) : List UInt8 × Bool :=
  tbiTbStandardFrom input outLen outLen 3 []

/-- A length or distance of `tbi_tb_fast` in two bytes, or in one. -/
def tbiFastField (wide : Bool) (input : List UInt8) (ip : ℕ) : Option (ℕ × ℕ) :=
  if wide then
    if input.length - ip < 2 then none
    else some ((input.getD ip 0).toNat + 2 ^ 8 * (input.getD (ip + 1) 0).toNat, ip + 2)
  else if input.length ≤ ip then none
  else some ((input.getD ip 0).toNat, ip + 1)

/-- The loop of `tbi_tb_fast`: what is written, and the error. Each round writes a byte at least. -/
def tbiTbFastFrom (input : List UInt8) (outLen : ℕ) :
    ℕ → ℕ → List UInt8 → List UInt8 × Option GrubError
  | 0, _, out =>
    (out, if outLen ≤ out.length then none else some (tbiBadData "bad TBI TB Fast block"))
  | fuel + 1, ip, out =>
    let bad := tbiBadData "bad TBI TB Fast block"
    if outLen ≤ out.length then (out, none)
    else if input.length ≤ ip then (out, some (tbiBadData "truncated TBI TB Fast block"))
    else
      let token := (input.getD ip 0).toNat
      let ip := ip + 1
      if token / 2 ^ 7 % 2 = 0 then
        let field :=
          if token / 2 ^ 6 % 2 = 1 then
            (tbiFastField (token / 2 ^ 5 % 2 = 1) input ip).map fun (len, ip) => (len + 65, ip)
          else some (token % 2 ^ 6 + 1, ip)
        match field with
        | none => (out, some bad)
        | some (len, ip) =>
          if input.length - ip < len ∨ outLen - out.length < len then (out, some bad)
          else tbiTbFastFrom input outLen fuel (ip + len) (out ++ (input.drop ip).take len)
      else
        let length :=
          if token / 2 ^ 5 % 2 = 1 then tbiFastField true input ip else some (token % 2 ^ 5, ip)
        match length with
        | none => (out, some bad)
        | some (len, ip) =>
          match tbiFastField (token / 2 ^ 6 % 2 = 1) input ip with
          | none => (out, some bad)
          | some (dist, ip) =>
            if out.length < dist + 1 ∨ outLen - out.length < len + 4 then (out, some bad)
            else tbiTbFastFrom input outLen fuel ip (tbiCopy (dist + 1) (len + 4) out)

/-- `tbi_tb_fast`. -/
def tbiTbFast (input : List UInt8) (outLen : ℕ) : List UInt8 × Option GrubError :=
  tbiTbFastFrom input outLen outLen 0 []

section Image

-- `tinfl_decompress_mem_to_mem` and `ZSTD_decompressDCtx` on a source and a capacity: the bytes they
-- write, and whether they return their number or an error
variable (inflate zstd : List UInt8 → ℕ → List UInt8 × Bool)

/-- `tbi_decode`: what is written to `plain`, and the error. -/
def tbiDecode (codec : TbiCodec) (stored : List UInt8) (plainLen : ℕ) :
    List UInt8 × Option GrubError :=
  let whole (out : List UInt8 × Bool) (message : String) : List UInt8 × Option GrubError :=
    (out.1, if out.2 = true ∧ out.1.length = plainLen then none else some (tbiBadData message))
  if stored.length = plainLen then (stored, none)
  else
    match codec with
    | .deflate => whole (inflate stored plainLen) "bad TBI Deflate block"
    | .tbFast => tbiTbFast stored plainLen
    | .zstd => whole (zstd stored plainLen) "bad TBI ZSTD block"
    | .standard =>
      let out := tbiTbStandard stored plainLen
      (out.1, if out.2 then none else some (tbiBadData "bad TBI TB Standard block"))

/-- The part of `struct tbi_image` that reading leaves alone. -/
structure TbiImage where
  file : GrubFile
  size : ℕ
  codec : TbiCodec
  blockHeader : ℕ
  parts : List TbiPart
  ext : List TbiExtent
  synth : Option Buf

/-- The part that reading changes. `calls` numbers the reads of the file. -/
structure TbiState where
  cur : ℕ
  cachedPhys : ℕ
  plain : Buf
  calls : ℕ

/-- Behind opening, which leaves anything in `plain`. -/
def TbiState.init (plain : Buf) : TbiState where
  cur := 0
  cachedPhys := TBI_NO_CACHE
  plain
  calls := 1

/-- `tbi_read_block`. -/
def tbiReadBlock (file : GrubFile) (codec : TbiCodec) (blockHeader : ℕ) (s : TbiState)
    (phys plainLen storedLen : ℕ) : Except GrubError Unit × TbiState :=
  let s := { s with cachedPhys := TBI_NO_CACHE }
  match tbiPread file s.calls (phys + blockHeader) storedLen with
  | .error (e, _) => (.error e, { s with calls := s.calls + 1 })
  | .ok stored =>
    let out := tbiDecode inflate zstd codec (stored.take storedLen) plainLen
    (match out.2 with
      | none => .ok ()
      | some e => .error e, { s with plain := s.plain.write out.1, calls := s.calls + 1 })

/-! ### The streams -/

/-- The lengths in the block header `hdr`. -/
def tbiHeaderLens (hdr : Buf) : ℕ × ℕ :=
  let plain := if lostLe16 hdr 0 ≠ 0 then lostLe16 hdr 0 else TBI_BLOCK_MAX
  (plain / 2 * 2, if lostLe16 hdr 2 ≠ 0 then lostLe16 hdr 2 else TBI_BLOCK_MAX)

/-- `tbi_read_block_header`, while the image is opened. -/
def tbiReadBlockHeader (file : GrubFile) (blockHeader phys : ℕ) : Except GrubError (ℕ × ℕ) := do
  let hdr ← (tbiPread file 0 phys blockHeader).mapError Prod.fst
  refuseIf ((tbiHeaderLens hdr).1 = 0 ∨ TBI_BLOCK_MAX < (tbiHeaderLens hdr).1
    ∨ TBI_BLOCK_MAX < (tbiHeaderLens hdr).2) (tbiBadData "bad TBI block size")
  .ok (tbiHeaderLens hdr)

/-- `tbi_add_extent`. -/
def tbiAddExtent (ext : List TbiExtent) (e : TbiExtent) : Except GrubError (List TbiExtent) :=
  if TBI_EXTENTS_MAX ≤ ext.length then .error ⟨.outOfMemory, "too many TBI blocks"⟩
  else .ok (ext ++ [e])

/-- The commands of a sparse-control block, the `n` words from `i` on: the logical position behind
them. -/
def tbiSparse (plain : Buf) (limit : ℕ) : ℕ → ℕ → ℕ → Except GrubError ℕ
  | 0, _, logical => .ok logical
  | n + 1, i, logical =>
    let word := lostLe32 plain i
    if word / 2 ^ 28 = 0 then .ok logical
    else if word / 2 ^ 28 = 8 then
      .error ⟨.notImplementedYet, "differential TBI backups are not supported"⟩
    else if limit - logical < word % 2 ^ 28 * TBI_SECTOR then
      .error (tbiBadData "TBI sparse run exceeds its partition")
    else tbiSparse plain limit n (i + 4) (logical + word % 2 ^ 28 * TBI_SECTOR)

/-- A sparse-control block at `phys`: the logical position behind it. -/
def tbiControl (file : GrubFile) (codec : TbiCodec) (blockHeader phys plainLen storedLen limit
    logical : ℕ) : Except GrubError ℕ := do
  let (r, s) := tbiReadBlock inflate zstd file codec blockHeader
    { cur := 0, cachedPhys := TBI_NO_CACHE, plain := fun _ => 0, calls := 0 } phys plainLen storedLen
  let () ← r
  refuseIf (plainLen < 8 ∨ plainLen % 4 ≠ 0
      ∨ lostLe32 s.plain (plainLen - 4) ≠ (tbiChecksum s.plain ((plainLen - 4) / 4) 0 0).toNat)
    (tbiBadData "bad TBI sparse-control block")
  tbiSparse s.plain limit ((plainLen - 4) / 4) 0 logical

/-- The loop of `tbi_scan_stream`; each round goes on by five bytes at least. -/
def tbiScanFrom (file : GrubFile) (codec : TbiCodec) (blockHeader footer limit targetBase : ℕ) :
    ℕ → ℕ → ℕ → List TbiExtent → Except GrubError (List TbiExtent)
  | 0, phys, _, ext =>
    if phys = footer then .ok ext else .error (tbiBadData "TBI stream does not end at its footer")
  | fuel + 1, phys, logical, ext =>
    if phys < footer then do
      let (plainLen, storedLen) ← tbiReadBlockHeader file blockHeader phys
      refuseIf (footer - phys < blockHeader ∨ footer - phys - blockHeader < storedLen)
        (tbiBadData "TBI block runs past its stream")
      if plainLen % TBI_SECTOR = 0 then do
        refuseIf (limit - logical < plainLen) (tbiBadData "TBI data exceeds its partition")
        let ext ← tbiAddExtent ext ⟨targetBase + logical, phys, plainLen, storedLen⟩
        tbiScanFrom file codec blockHeader footer limit targetBase fuel
          (phys + (blockHeader + storedLen)) (logical + plainLen) ext
      else do
        let logical ← tbiControl inflate zstd file codec blockHeader phys plainLen storedLen limit
          logical
        tbiScanFrom file codec blockHeader footer limit targetBase fuel
          (phys + (blockHeader + storedLen)) logical ext
    else if phys = footer then .ok ext
    else .error (tbiBadData "TBI stream does not end at its footer")

/-- The bytes of a partition. -/
def TbiPart.limit (part : TbiPart) : ℕ := u64 (u64 (part.lastLba - part.firstLba + 1) * TBI_SECTOR)

/-- `tbi_scan_stream`. -/
def tbiScanStream (file : GrubFile) (codec : TbiCodec) (blockHeader : ℕ) (part : TbiPart)
    (targetBase : ℕ) (ext : List TbiExtent) : Except GrubError (List TbiExtent) :=
  tbiScanFrom inflate zstd file codec blockHeader part.footer part.limit targetBase part.footer
    (part.streamBase + TBI_STREAM_HEADER) 0 ext

/-! ### The generated GPT -/

/-- `tbi_crc32`. -/
def tbiCrc32 (bytes : List UInt8) : UInt32 :=
  ~~~ bytes.foldl (fun crc b => Crc32.shift 8 (crc ^^^ b.toUInt32)) 0xffffffff

/-- `tbi_type_data`, `tbi_type_linux` and `tbi_type_swap`. -/
def tbiTypeData : List UInt8 :=
  [0xa2, 0xa0, 0xd0, 0xeb, 0xe5, 0xb9, 0x33, 0x44, 0x87, 0xc0, 0x68, 0xb6, 0xb7, 0x26, 0x99, 0xc7]
def tbiTypeLinux : List UInt8 :=
  [0xaf, 0x3d, 0xc6, 0x0f, 0x83, 0x84, 0x72, 0x47, 0x8e, 0x79, 0x3d, 0x69, 0xd8, 0x47, 0x7d, 0xe4]
def tbiTypeSwap : List UInt8 :=
  [0x6d, 0xfd, 0x57, 0x06, 0xab, 0xa4, 0xc4, 0x43, 0x84, 0xe5, 0x09, 0x33, 0xc8, 0x4b, 0x4f, 0x4f]

/-- The type of a partition in the GPT. -/
def TbiPart.gptType (part : TbiPart) : List UInt8 :=
  if part.type.any (· ≠ 0) then part.type
  else if part.mbrType = 0x82 then tbiTypeSwap
  else if part.mbrType = 0x83 then tbiTypeLinux
  else tbiTypeData

/-- The first 48 bytes of the `struct grub_gpt_partentry` of a partition. -/
def TbiPart.gptEntry (part : TbiPart) : List UInt8 :=
  part.gptType ++ part.guid ++ leBytes 8 part.firstLba ++ leBytes 8 part.lastLba

/-- The partition entries, from number `i` on. -/
def tbiGptEntries : List TbiPart → ℕ → Buf → Buf
  | [], _, entries => entries
  | part :: parts, i, entries => tbiGptEntries parts (i + 1) (entries.put (i * 128) part.gptEntry)

/-- A `struct grub_gpt_header` with the checksum `crc`. -/
def tbiGptFields (diskSectors entriesCrc crc : ℕ) : List UInt8 :=
  [0x45, 0x46, 0x49, 0x20, 0x50, 0x41, 0x52, 0x54] ++ leBytes 4 0x10000 ++ leBytes 4 92
    ++ leBytes 4 crc ++ leBytes 4 0 ++ leBytes 8 1 ++ leBytes 8 (diskSectors - 1)
    ++ leBytes 8 TBI_GPT_FIRST_USABLE ++ leBytes 8 (diskSectors - TBI_GPT_FIRST_USABLE)
    ++ List.replicate 16 0 ++ leBytes 8 2 ++ leBytes 4 TBI_GPT_ENTRIES ++ leBytes 4 128
    ++ leBytes 4 entriesCrc

/-- The length of the generated GPT, `synth_len`. -/
def TBI_SYNTH_LEN : ℕ := (1 + TBI_GPT_SECTORS) * TBI_SECTOR

/-- `tbi_build_gpt`. -/
def tbiBuildGpt (parts : List TbiPart) (diskSectors : ℕ) : Buf :=
  let entries := tbiGptEntries parts 0 fun _ => 0
  let entriesCrc := (tbiCrc32 (entries.take (TBI_GPT_ENTRIES * 128))).toNat
  let crc := (tbiCrc32 (tbiGptFields diskSectors entriesCrc 0)).toNat
  let mbr : Buf := Buf.ofFields
    [(450, [0xee]), (454, leBytes 4 1), (458, leBytes 4 (min (diskSectors - 1) 0xffffffff)),
      (510, [0x55, 0xaa])]
  (mbr.put TBI_SECTOR (tbiGptFields diskSectors entriesCrc crc)).splice (2 * TBI_SECTOR)
    (TBI_GPT_ENTRIES * 128) entries

/-! ### Opening -/

/-- A partition put behind those that do not start after it; `parts` has its last one in front. -/
def tbiSortPart (part : TbiPart) : List TbiPart → List TbiPart
  | [] => [part]
  | q :: qs => if part.firstLba < q.firstLba then q :: tbiSortPart part qs else part :: q :: qs

/-- `tbi_sort_parts`. -/
def tbiSortParts (parts : List TbiPart) : List TbiPart :=
  (parts.foldl (fun sorted part => tbiSortPart part sorted) []).reverse

/-- What the metadata records leave. -/
structure TbiMeta where
  metaLimit : ℕ
  features : ℕ
  haveHead : Bool
  haveCrypt : Bool
  parts : List TbiPart

/-- The part of the loop of `tbi_open_image` for a record of that type and length, whose payload is
at `off` and starts with `p`. -/
def tbiMetaRecord (m : TbiMeta) (type len off : ℕ) (p : Buf) : Except GrubError TbiMeta :=
  if type = 0 then do
    refuseIf (m.haveHead = true ∨ len < 0x1c ∨ bytesAt p 0 [0x49, 0x4d, 0x47, 0x32] = false)
      (tbiBadFile "not a TBI IMG2 image")
    .ok { m with features := lostLe16 p 0x10, haveHead := true }
  else if type = 1 then do
    refuseIf (len < TBI_PART_PAYLOAD_MIN ∨ m.parts.length = TBI_GPT_ENTRIES)
      (tbiBadFile "bad TBI partition descriptor")
    let streamBase := lostLe64 p 0xec
    refuseIf (streamBase < off + len) (tbiBadFile "TBI stream overlaps metadata")
    refuseIf (lostLe64 p 0xf4 < 0x18) (tbiBadFile "bad TBI stream footer")
    .ok { m with
      metaLimit := min m.metaLimit streamBase
      parts := m.parts ++ [{
        firstLba := lostLe64 p 0x6c
        lastLba := lostLe64 p 0x74
        streamBase
        footer := lostLe64 p 0xf4 - 0x18
        type := (p.from 0x7c).take 16
        guid := (p.from 0x8c).take 16
        mbrType := byteAt p 0xa4 }] }
  else if type = 6 then
    .ok { m with haveCrypt := m.haveCrypt || (decide (4 ≤ len) && decide (lostLe32 p 0 ≠ 0)) }
  else .ok m

/-- The loop of `tbi_open_image` over the metadata records from `off` on, at most that many. -/
def tbiMetaFrom (file : GrubFile) : ℕ → ℕ → TbiMeta → Except GrubError TbiMeta
  | 0, _, _ => .error (tbiBadFile "unterminated TBI metadata")
  | fuel + 1, off, m => do
    refuseIf (m.metaLimit < off ∨ m.metaLimit - off < TBI_REC_HEADER)
      (tbiBadFile "unterminated TBI metadata")
    let header ← (tbiPread file 0 off TBI_REC_HEADER).mapError Prod.fst
    let type := lostLe32 header 0
    let len := lostLe32 header 4
    let off := off + TBI_REC_HEADER
    if type = 0xffffffff then .ok m
    else do
      refuseIf (m.metaLimit - off < len) (tbiBadFile "bad TBI metadata record")
      let p ←
        if type = 0 ∨ type = 1 ∨ type = 6 then
          (tbiPread file 0 off (min len TBI_PART_PAYLOAD_MIN)).mapError Prod.fst
        else .ok fun _ => 0
      let m ← tbiMetaRecord m type len off p
      tbiMetaFrom file fuel (off + len) m

/-- The codec of the feature bits. -/
def tbiCodecOf (features : ℕ) : TbiCodec :=
  if features % 2 = 1 then .deflate
  else if features / 2 ^ 6 % 2 = 1 then .deflate
  else if features / 2 ^ 5 % 2 = 1 then .tbFast
  else if features / 2 ^ 8 % 2 = 1 then .zstd
  else .standard

/-- The checks of `tbi_open_image` on the sorted partitions, `last` being the one before. -/
def tbiCheckParts (fileSize : ℕ) : Option TbiPart → List TbiPart → Except GrubError Unit
  | _, [] => .ok ()
  | last, part :: parts => do
    refuseIf (part.lastLba < part.firstLba ∨ sub64 fileSize TBI_STREAM_HEADER < part.streamBase
        ∨ part.footer < part.streamBase + TBI_STREAM_HEADER ∨ fileSize < part.footer)
      (tbiBadFile "bad TBI partition stream")
    refuseIf (∃ q ∈ last, part.firstLba ≤ q.lastLba) (tbiBadFile "overlapping TBI partitions")
    tbiCheckParts fileSize (some part) parts

/-- The streams of the partitions of a disk, one after the other. -/
def tbiScanParts (file : GrubFile) (codec : TbiCodec) (blockHeader : ℕ) :
    List TbiPart → List TbiExtent → Except GrubError (List TbiExtent)
  | [], ext => .ok ext
  | part :: parts, ext => do
    let ext ← tbiScanStream inflate zstd file codec blockHeader part (part.firstLba * TBI_SECTOR) ext
    tbiScanParts file codec blockHeader parts ext

/-- `tbi_open_image`. -/
def tbiOpenImage (file : GrubFile) : Except GrubError TbiImage := do
  let m ← tbiMetaFrom file TBI_META_RECORDS_MAX 0
    { metaLimit := file.size, features := 0, haveHead := false, haveCrypt := false, parts := [] }
  refuseIf (m.haveHead = false ∨ m.parts = []) (tbiBadFile "TBI image has no partition stream")
  refuseIf (m.haveCrypt = true) ⟨.notImplementedYet, "encrypted TBI backups are not supported"⟩
  let blockHeader := if m.features / 2 ^ 7 % 2 = 1 then 8 else 4
  let codec := tbiCodecOf m.features
  let parts := tbiSortParts m.parts
  tbiCheckParts file.size none parts
  match parts with
  | [part] => do
    let sectors := u64 (part.lastLba - part.firstLba + 1)
    refuseIf ((2 ^ 64 - 1) / TBI_SECTOR < sectors)
      ⟨.outOfRange, "TBI partition is too large"⟩
    let ext ← tbiScanStream inflate zstd file codec blockHeader part 0 []
    .ok { file, size := sectors * TBI_SECTOR, codec, blockHeader, parts, ext, synth := none }
  | parts => do
    let last := (parts.getLast?.map TbiPart.lastLba).getD 0
    refuseIf (2 ^ 64 - 1 - TBI_GPT_FIRST_USABLE < last)
      ⟨.outOfRange, "TBI source disk is too large"⟩
    let diskSectors := last + TBI_GPT_FIRST_USABLE
    refuseIf ((2 ^ 64 - 1) / TBI_SECTOR < diskSectors)
      ⟨.outOfRange, "TBI source disk is too large"⟩
    let ext ← tbiScanParts inflate zstd file codec blockHeader parts []
    .ok { file, size := diskSectors * TBI_SECTOR, codec, blockHeader, parts, ext,
          synth := some (tbiBuildGpt parts diskSectors) }

/-! ### Reading -/

/-- The extent number `nr`. -/
def TbiImage.extent (img : TbiImage) (nr : ℕ) : TbiExtent := img.ext.getD nr ⟨0, 0, 0, 0⟩

/-- The end of an extent. -/
def TbiExtent.endAt (e : TbiExtent) : ℕ := e.off + e.len

/-- `tbi_find_extent`. -/
def tbiFindExtent (img : TbiImage) (cur off : ℕ) : ℕ :=
  if cur < img.ext.length ∧ (img.extent cur).off ≤ off then
    if off < (img.extent cur).endAt then cur
    else if cur + 1 = img.ext.length ∨ off < (img.extent (cur + 1)).endAt then cur + 1
    else Bisect.search (fun mid => (img.extent mid).endAt ≤ off) img.ext.length
  else Bisect.search (fun mid => (img.extent mid).endAt ≤ off) img.ext.length

/-- The part of `tbi_read` inside the extent number `nr`. -/
def tbiReadExtent (img : TbiImage) (s : TbiState) (nr off len : ℕ) :
    Except GrubError (List UInt8) × TbiState :=
  let e := img.extent nr
  let s := { s with cur := nr }
  let n := min (e.len - (off - e.off)) len
  if s.cachedPhys = e.phys then (.ok ((s.plain.from (off - e.off)).take n), s)
  else
    match tbiReadBlock inflate zstd img.file img.codec img.blockHeader s e.phys e.len e.storedLen with
    | (.error error, s) => (.error error, s)
    | (.ok (), s) => (.ok ((s.plain.from (off - e.off)).take n), { s with cachedPhys := e.phys })

/-- The part of `tbi_read` behind the generated GPT. -/
def tbiReadVolume (img : TbiImage) (s : TbiState) (off len : ℕ) :
    Except GrubError (List UInt8) × TbiState :=
  let nr := tbiFindExtent img s.cur off
  if nr = img.ext.length ∨ off < (img.extent nr).off then
    let endAt := if nr < img.ext.length then (img.extent nr).off else img.size
    (.ok (List.replicate (min len (endAt - off)) 0), s)
  else tbiReadExtent inflate zstd img s nr off len

/-- `tbi_read`. -/
def tbiRead (img : TbiImage) (s : TbiState) (off len : ℕ) :
    Except GrubError (List UInt8) × TbiState :=
  if img.size ≤ off then (.error ⟨.outOfRange, "read past the end of the TBI image"⟩, s)
  else
    let len := min len (img.size - off)
    if len = 0 then (.ok [], s)
    else
      match img.synth with
      | none => tbiReadVolume inflate zstd img s off len
      | some synth =>
        if off < TBI_SYNTH_LEN then
          (.ok ((synth.from off).take (min (TBI_SYNTH_LEN - off) len)), s)
        else tbiReadVolume inflate zstd img s off len

/-- `grub_tbi_read`. -/
def grubTbiRead (img : TbiImage) (s : TbiState) (off len : ℕ) :
    Except GrubError (List UInt8) × TbiState :=
  filterRead ⟨.fileReadError, "TBI read made no progress"⟩ (tbiRead inflate zstd img) s off len

end Image

end FsRover
