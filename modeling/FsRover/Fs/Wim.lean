import FsRover.Grub
import FsRover.Lib.Blocks
import FsRover.Lib.History
import FsRover.Lib.Loop

/-!
# Resources and directories of a WIM archive

A compressed resource is a table of chunks, each stored raw or compressed; the chunk that was decoded
last is kept. A directory is a row of entries in the metadata resource, each with its length and
followed by the entries of its streams.

## Main definitions

* `FsRover.wimChunk`, `FsRover.grubWimGetResource` : a chunk, and reading with the cache.
* `FsRover.wimVisit`, `FsRover.grubWimIterateDir` : an entry with its streams, and the loop over them.
* `FsRover.wimContent` : the decoded chunks one after the other.

## Main results

* `FsRover.grubWimGetResource_spec` : a read that succeeds gives the content, whatever is cached.
-/

namespace FsRover

def WIM_CHUNK_LEN : ℕ := 32768
def WIM_HASH_LEN : ℕ := 20
def WIM_HDR_COMPRESS_XPRESS : ℕ := 0x00020000
def WIM_HDR_COMPRESS_LZX : ℕ := 0x00040000

/-! ### Resources -/

/-- `struct wim_resource_header`. -/
structure WimResource where
  zlenFlags : ℕ
  offset : ℕ
  len : ℕ
  len_lt : len < 2 ^ 64

/-- `zlen__flags & WIM_RESHDR_ZLEN_MASK`. -/
def WimResource.zlen (res : WimResource) : ℕ := res.zlenFlags % 2 ^ 56

/-- A flag of the resource is set. -/
def WimResource.has (res : WimResource) (flag : ℕ) : Bool := res.zlenFlags &&& flag ≠ 0

def WIM_RESHDR_COMPRESSED : ℕ := 0x04 * 2 ^ 56
def WIM_RESHDR_PACKED_STREAMS : ℕ := 0x10 * 2 ^ 56

/-- The archive on its device, the flags of its header, and the two decoders. -/
structure WimArchive where
  device : Buf
  size : ℕ
  flags : ℕ
  lzxDecompress : List UInt8 → Option (List UInt8)
  xcaDecompress : List UInt8 → Option (List UInt8)

/-- The reads that fail, by offset and length, and what they leave in the buffer. -/
abbrev WimFaults := ℕ → ℕ → Option (GrubError × Buf)

/-- No read fails. -/
def wimCalm : WimFaults := fun _ _ => none

/-- `grub_disk_read`. -/
def wimDiskRead (arc : WimArchive) (faults : WimFaults) (offset length : ℕ) :
    Except (GrubError × Buf) Buf :=
  match faults (u64 offset) length with
  | some e => .error e
  | none => .ok (arc.device.from (u64 offset))

def wimChunkTable : GrubError := ⟨.badFs, "wim chunk table corrupt"⟩

/-- `grub_wim_get_chunk_offset`. -/
def wimGetChunkOffset (arc : WimArchive) (faults : WimFaults) (res : WimResource) (chunk : ℕ) :
    Except GrubError ℕ :=
  if res.len = 0 then .ok 0
  else
    let chunks := u64 (res.len + WIM_CHUNK_LEN - 1) / WIM_CHUNK_LEN
    let offsetLen := if 0xffffffff < res.len then 8 else 4
    let chunksLen := u64 (sub64 chunks 1 * offsetLen)
    if res.zlen < chunksLen then .error wimChunkTable
    else if chunk = 0 then .ok chunksLen
    else if chunks ≤ chunk then .ok res.zlen
    else
      match wimDiskRead arc faults (res.offset + u64 ((chunk - 1) * offsetLen)) offsetLen with
      | .error e => .error e.1
      | .ok u =>
        let offset := u64 (chunksLen + if offsetLen = 8 then lostLe64 u 0 else lostLe32 u 0)
        if res.zlen < offset then .error wimChunkTable else .ok offset

/-- `expected_out_len`. -/
def wimExpectedLen (res : WimResource) (chunk : ℕ) : ℕ :=
  let chunks := u64 (res.len + WIM_CHUNK_LEN - 1) / WIM_CHUNK_LEN
  if sub64 chunks 1 ≤ chunk then WIM_CHUNK_LEN - sub64 0 res.len % WIM_CHUNK_LEN else WIM_CHUNK_LEN

/-- `grub_wim_get_chunk`: the bytes it writes to the start of `chunk_data`, or the error and what a
read that failed left there. -/
def wimChunk (arc : WimArchive) (faults : WimFaults) (res : WimResource) (chunk : ℕ) :
    Except (GrubError × Option Buf) (List UInt8) :=
  match wimGetChunkOffset arc faults res chunk with
  | .error e => .error (e, none)
  | .ok offset =>
    match wimGetChunkOffset arc faults res (chunk + 1) with
    | .error e => .error (e, none)
    | .ok nextOffset =>
      if nextOffset < offset ∨ 2 * WIM_CHUNK_LEN < nextOffset - offset then
        .error (wimChunkTable, none)
      else
        let len := nextOffset - offset
        if len = wimExpectedLen res chunk then
          match wimDiskRead arc faults (res.offset + offset) len with
          | .error e => .error (e.1, some e.2)
          | .ok raw => .ok (raw.list 0 len)
        else if arc.flags &&& WIM_HDR_COMPRESS_LZX = 0 ∧ arc.flags &&& WIM_HDR_COMPRESS_XPRESS = 0 then
          .error (⟨.notImplementedYet, "unsupported wim compression (LZMS/solid?)"⟩, none)
        else if len = 0 then .error (wimChunkTable, none)
        else
          match wimDiskRead arc faults (res.offset + offset) len with
          | .error e => .error (e.1, none)
          | .ok zbuf =>
            let out := if arc.flags &&& WIM_HDR_COMPRESS_LZX ≠ 0 then
                arc.lzxDecompress (zbuf.list 0 len)
              else arc.xcaDecompress (zbuf.list 0 len)
            match out with
            | none => .error (⟨.badCompressedData, "wim chunk decompression failed"⟩, none)
            | some out =>
              if out.length ≠ wimExpectedLen res chunk then
                .error (⟨.badCompressedData, "wim chunk decompression failed"⟩, none)
              else .ok out

/-- `cache_valid`, `cached_res_offset`, `cached_chunk` and `chunk_data`. -/
structure WimCache where
  cacheValid : Bool
  cachedResOffset : ℕ
  cachedChunk : ℕ
  chunkData : Buf

/-- `bytes` over the start of a buffer. -/
def Buf.over (p : Buf) (bytes : List UInt8) : Buf := fun i => bytes.getD i (p i)

/-- The chunk is brought to `chunk_data`. -/
def wimLoad (arc : WimArchive) (faults : WimFaults) (res : WimResource) (cache : WimCache)
    (chunk : ℕ) : Except GrubError Unit × WimCache :=
  if ¬ cache.cacheValid ∨ res.offset ≠ cache.cachedResOffset ∨ chunk ≠ cache.cachedChunk then
    match wimChunk arc faults res chunk with
    | .error (e, junk) =>
      (.error e, { cache with cacheValid := false, chunkData := junk.getD cache.chunkData })
    | .ok bytes => (.ok (), ⟨true, res.offset, chunk, cache.chunkData.over bytes⟩)
  else (.ok (), cache)

/-- One round of the loop of `grub_wim_get_resource`. -/
def wimPiece (arc : WimArchive) (faults : WimFaults) (res : WimResource) (cache : WimCache)
    (offset len : ℕ) : Except GrubError (List UInt8) × WimCache :=
  let skipLen := offset % WIM_CHUNK_LEN
  let fragLen := min (WIM_CHUNK_LEN - skipLen) len
  match wimLoad arc faults res cache (offset / WIM_CHUNK_LEN) with
  | (.error e, cache) => (.error e, cache)
  | (.ok (), cache) => (.ok (cache.chunkData.list skipLen fragLen), cache)

/-- The loop makes progress in each round, so this error does not come up. -/
def wimStuck : GrubError := ⟨.fileReadError, ""⟩

/-- `grub_wim_get_resource`. -/
def grubWimGetResource (arc : WimArchive) (faults : WimFaults) (res : WimResource)
    (cache : WimCache) (offset len : ℕ) : Except GrubError (List UInt8) × WimCache :=
  if len = 0 then (.ok [], cache)
  else if u64 (offset + len) < offset ∨ res.len < u64 (offset + len) then
    (.error ⟨.outOfRange, "attempt to read past the end of wim resource"⟩, cache)
  else if arc.size < u64 (res.offset + res.zlen) then
    (.error ⟨.badFs, "wim resource outside device"⟩, cache)
  else if res.has WIM_RESHDR_PACKED_STREAMS then
    (.error ⟨.notImplementedYet, "solid wim resources are not supported"⟩, cache)
  else if ¬ res.has WIM_RESHDR_COMPRESSED then
    match wimDiskRead arc faults (res.offset + offset) len with
    | .error e => (.error e.1, cache)
    | .ok raw => (.ok (raw.list 0 len), cache)
  else History.readAll wimStuck (wimPiece arc faults res) len cache offset len

/-- A read: the resource, the reads of the device that fail meanwhile, and what is asked for. -/
structure WimRequest where
  res : WimResource
  faults : WimFaults
  offset : ℕ
  len : ℕ
  offset_lt : offset < 2 ^ 64
  len_lt : len < 2 ^ 64

/-- The answer to a read, and the cache then. -/
def wimAnswer (arc : WimArchive) (cache : WimCache) (r : WimRequest) :
    Except GrubError (List UInt8) × WimCache :=
  grubWimGetResource arc r.faults r.res cache r.offset r.len

/-! ### The content -/

/-- The chunks of a resource. -/
def WimResource.chunks (res : WimResource) : ℕ := (res.len + WIM_CHUNK_LEN - 1) / WIM_CHUNK_LEN

/-- The bytes of a resource that a chunk stands for. -/
def WimResource.chunkLen (res : WimResource) (chunk : ℕ) : ℕ :=
  min WIM_CHUNK_LEN (res.len - chunk * WIM_CHUNK_LEN)

/-- A chunk as it decodes; zeros if it does not. -/
def wimDecoded (arc : WimArchive) (res : WimResource) (chunk : ℕ) : List UInt8 :=
  match wimChunk arc wimCalm res chunk with
  | .ok bytes => bytes
  | .error _ => List.replicate (res.chunkLen chunk) 0

/-- The content of a resource: its decoded chunks one after the other, or what is stored. -/
def wimContent (arc : WimArchive) (res : WimResource) (offset len : ℕ) : List UInt8 :=
  if res.has WIM_RESHDR_COMPRESSED then
    ((Blocks.concat (wimDecoded arc res) res.chunks).drop offset).take len
  else (arc.device.from (u64 (res.offset + offset))).list 0 len

/-! ### Directories -/

/-- `struct grub_fshelp_node`, as an entry is handed to the hook. -/
structure WimNode where
  subdir : ℕ
  mtime : ℕ
  attributes : ℕ
  hash : List UInt8

/-- What the loop goes over: where it is, how long that says it is, and where it goes on. -/
structure WimStep where
  pos : ℕ
  len : ℕ
  next : ℕ
  deriving DecidableEq

/-- The bytes of an entry. -/
def wimEntry (bs : List UInt8) : Buf := fun i => bs.getD i 0

/-- `(len + 7) & ~7ULL`. -/
def wimRound (len : ℕ) : ℕ := u64 (len + 7) / 8 * 8

/-- `grub_wim_hash_empty`. -/
def grubWimHashEmpty (hash : List UInt8) : Bool := hash.all (· == 0)

/-- The state of the loop of `grub_wim_iterate_dir`. -/
structure WimWalk (τ : Type) where
  offset : ℕ
  cache : WimCache
  hookData : τ

/-- What `grub_wim_iterate_dir` returns, with the error that is set. -/
structure WimEnd (τ : Type) where
  ret : ℤ
  err : Option GrubError
  cache : WimCache
  hookData : τ

/-- The loop over the streams of an entry: where the next entry is and the hash, the cache, and what is
gone over. -/
def wimStreams (arc : WimArchive) (faults : WimFaults) (res : WimResource) :
    ℕ → WimCache → ℕ → List UInt8 → Except GrubError (ℕ × List UInt8) × WimCache × List WimStep
  | 0, cache, next, hash => (.ok (next, hash), cache, [])
  | streams + 1, cache, next, hash =>
    match grubWimGetResource arc faults res cache next 38 with
    | (.error e, cache) => (.error e, cache, [])
    | (.ok bs, cache) =>
      let stream := wimEntry bs
      let len := lostLe64 stream 0
      if len = 0 then (.error ⟨.badFs, "wim stream entry corrupt"⟩, cache, [])
      else
        let hash := if grubWimHashEmpty hash ∧ lostLe16 stream 36 = 0 then stream.list 16 WIM_HASH_LEN
          else hash
        let r := wimStreams arc faults res streams cache (u64 (next + wimRound len)) hash
        (r.1, r.2.1, ⟨next, len, u64 (next + wimRound len)⟩ :: r.2.2)

/-- A round of the loop of `grub_wim_iterate_dir`: what is gone over, and how it goes on. -/
def wimVisit {τ : Type} (arc : WimArchive) (faults : WimFaults) (res : WimResource)
    (hook : τ → List UInt8 → WimNode → ℤ × τ) (s : WimWalk τ) :
    List WimStep × (WimWalk τ ⊕ WimEnd τ) :=
  match grubWimGetResource arc faults res s.cache s.offset 8 with
  | (.error e, cache) => ([], .inr ⟨0, some e, cache, s.hookData⟩)
  | (.ok bs, cache) =>
    if lostLe64 (wimEntry bs) 0 = 0 then ([], .inr ⟨0, none, cache, s.hookData⟩)
    else
      match grubWimGetResource arc faults res cache s.offset 102 with
      | (.error e, cache) => ([], .inr ⟨0, some e, cache, s.hookData⟩)
      | (.ok bs, cache) =>
        let direntry := wimEntry bs
        let len := lostLe64 direntry 0
        let next := u64 (s.offset + wimRound len)
        match wimStreams arc faults res (lostLe16 direntry 96) cache next
          (direntry.list 64 WIM_HASH_LEN) with
        | (.error e, cache, steps) =>
          (⟨s.offset, len, next⟩ :: steps, .inr ⟨0, some e, cache, s.hookData⟩)
        | (.ok (next', hash), cache, steps) =>
          let nameLen := lostLe16 direntry 100
          (⟨s.offset, len, next⟩ :: steps,
            if nameLen < 2 then .inl ⟨next', cache, s.hookData⟩
            else
              match grubWimGetResource arc faults res cache (u64 (s.offset + 102)) nameLen with
              | (.error e, cache) => .inr ⟨0, some e, cache, s.hookData⟩
              | (.ok name, cache) =>
                let (ret, hookData) := hook s.hookData (name.take (nameLen / 2 * 2))
                  ⟨lostLe64 direntry 16, lostLe64 direntry 56, lostLe32 direntry 8, hash⟩
                if ret ≠ 0 then .inr ⟨ret, none, cache, hookData⟩ else .inl ⟨next', cache, hookData⟩)

/-- `grub_wim_iterate_dir`, over at most so many entries. -/
def grubWimIterateDir {τ : Type} (arc : WimArchive) (faults : WimFaults) (res : WimResource)
    (hook : τ → List UInt8 → WimNode → ℤ × τ) (fuel subdir : ℕ) (cache : WimCache) (hookData : τ) :
    Option (WimEnd τ) :=
  if subdir = 0 then some ⟨0, none, cache, hookData⟩
  else
    FuelLoop.run (fun s => (wimVisit arc faults res hook s).2) fuel ⟨subdir, cache, hookData⟩

/-- The states the loop gets to. -/
inductive WimReached {τ : Type} (arc : WimArchive) (faults : WimFaults) (res : WimResource)
    (hook : τ → List UInt8 → WimNode → ℤ × τ) (s₀ : WimWalk τ) : WimWalk τ → Prop
  | start : WimReached arc faults res hook s₀ s₀
  | next {s s' : WimWalk τ} (hs : WimReached arc faults res hook s₀ s)
    (hvisit : (wimVisit arc faults res hook s).2 = .inl s') : WimReached arc faults res hook s₀ s'

/-- The steps lead from one place to another. -/
def WimChain : ℕ → List WimStep → ℕ → Prop
  | a, [], b => a = b
  | a, step :: steps, b => step.pos = a ∧ WimChain step.next steps b

/-- Where a step should go on. -/
def WimStep.after (step : WimStep) : ℕ := step.pos + (step.len + 7) / 8 * 8

/-! ### Chunks -/

variable {arc : WimArchive} {faults : WimFaults} {res : WimResource} {cache : WimCache} {chunk : ℕ}

theorem wimDiskRead_calm {offset length : ℕ} {b : Buf}
    (h : wimDiskRead arc faults offset length = .ok b) :
    wimDiskRead arc wimCalm offset length = .ok b := by
  rw [wimDiskRead] at h
  cases hfault : faults (u64 offset) length with
  | some e =>
    rw [hfault] at h
    cases h
  | none =>
    rw [hfault] at h
    exact h

/-- What goes on after a read that succeeds does so on a device that never fails. -/
theorem wimDiskRead_elim {ε β : Type*} {offset length : ℕ} {g : GrubError × Buf → ε}
    {k : Buf → Except ε β} {r : β}
    (h : (match wimDiskRead arc faults offset length with
      | .error e => .error (g e)
      | .ok b => k b) = Except.ok r) :
    (match wimDiskRead arc wimCalm offset length with
      | .error e => .error (g e)
      | .ok b => k b) = Except.ok r := by
  cases hread : wimDiskRead arc faults offset length with
  | error e =>
    rw [hread] at h
    cases h
  | ok b =>
    rw [hread] at h
    rw [wimDiskRead_calm hread]
    exact h

theorem wimGetChunkOffset_calm {offset : ℕ} (h : wimGetChunkOffset arc faults res chunk = .ok offset) :
    wimGetChunkOffset arc wimCalm res chunk = .ok offset := by
  rw [wimGetChunkOffset] at h ⊢
  dsimp only at h ⊢
  obtain ⟨w, hw⟩ : ∃ w, w = if 0xffffffff < res.len then 8 else 4 := ⟨_, rfl⟩
  rw [← hw] at h ⊢
  split_ifs at h ⊢ with hempty htable hfirst hpast
  · exact h
  · exact h
  · exact h
  · exact wimDiskRead_elim h
  · exact wimDiskRead_elim h

/-- A chunk that is read on a device that fails now and then is what it decodes to. -/
theorem wimChunk_calm {bytes : List UInt8} (h : wimChunk arc faults res chunk = .ok bytes) :
    wimChunk arc wimCalm res chunk = .ok bytes := by
  rw [wimChunk] at h ⊢
  cases hoffset : wimGetChunkOffset arc faults res chunk with
  | error e =>
    rw [hoffset] at h
    cases h
  | ok offset =>
  cases hnext : wimGetChunkOffset arc faults res (chunk + 1) with
  | error e =>
    rw [hoffset, hnext] at h
    cases h
  | ok nextOffset =>
  rw [hoffset, hnext] at h
  rw [wimGetChunkOffset_calm hoffset, wimGetChunkOffset_calm hnext]
  dsimp only at h ⊢
  split_ifs at h ⊢ <;> exact wimDiskRead_elim h

/-- The chunk table fits in the resource only if the number of chunks is computed without
wrap-around. -/
theorem wimGetChunkOffset_fits {offset : ℕ} (h : wimGetChunkOffset arc faults res chunk = .ok offset) :
    res.len + WIM_CHUNK_LEN ≤ 2 ^ 64 := by
  have hlt := res.len_lt
  by_contra hwrap
  rw [WIM_CHUNK_LEN] at hwrap
  have hzlen : res.zlen < 2 ^ 56 := Nat.mod_lt _ (by decide)
  have hchunks : u64 (res.len + WIM_CHUNK_LEN - 1) / WIM_CHUNK_LEN = 0 := by
    rw [u64, WIM_CHUNK_LEN]
    omega
  rw [wimGetChunkOffset, if_neg (by omega)] at h
  dsimp only at h
  rw [hchunks, if_pos] at h
  · cases h
  · rw [if_pos (by omega), show u64 (sub64 0 1 * 8) = 2 ^ 64 - 8 by decide]
    omega

theorem wimExpectedLen_eq (hfits : res.len + WIM_CHUNK_LEN ≤ 2 ^ 64)
    (hchunk : chunk * WIM_CHUNK_LEN < res.len) : wimExpectedLen res chunk = res.chunkLen chunk := by
  rw [WIM_CHUNK_LEN] at hfits hchunk
  rw [wimExpectedLen, WimResource.chunkLen, WIM_CHUNK_LEN]
  rw [u64_of_lt (by omega), sub64_of_le (by omega) (by omega), sub64, u64]
  split_ifs with hlast
  · omega
  · omega

theorem wimChunk_length {bytes : List UInt8} (hchunk : chunk * WIM_CHUNK_LEN < res.len)
    (h : wimChunk arc faults res chunk = .ok bytes) : bytes.length = res.chunkLen chunk := by
  rw [wimChunk] at h
  cases hoffset : wimGetChunkOffset arc faults res chunk with
  | error e =>
    rw [hoffset] at h
    cases h
  | ok offset =>
  rw [← wimExpectedLen_eq (wimGetChunkOffset_fits hoffset) hchunk]
  rw [hoffset] at h
  dsimp only at h
  cases hnext : wimGetChunkOffset arc faults res (chunk + 1) with
  | error e =>
    rw [hnext] at h
    cases h
  | ok nextOffset =>
  rw [hnext] at h
  dsimp only at h
  split_ifs at h with hbad hraw hmethod hnone
  · cases hread : wimDiskRead arc faults (res.offset + offset) (nextOffset - offset) with
    | error e =>
      rw [hread] at h
      cases h
    | ok raw =>
      rw [hread] at h
      rw [← Except.ok.inj h, Buf.length_list, hraw]
  all_goals
    cases hread : wimDiskRead arc faults (res.offset + offset) (nextOffset - offset) with
    | error e =>
      rw [hread] at h
      cases h
    | ok zbuf =>
      rw [hread] at h
      dsimp only at h
      split at h
      · cases h
      · split_ifs at h with hlen
        rw [← Except.ok.inj h]
        exact not_not.mp hlen

theorem length_wimDecoded (hchunk : chunk * WIM_CHUNK_LEN < res.len) :
    (wimDecoded arc res chunk).length = res.chunkLen chunk := by
  rw [wimDecoded]
  cases hcalm : wimChunk arc wimCalm res chunk with
  | error e => exact List.length_replicate
  | ok bytes => exact wimChunk_length hchunk hcalm

/-! ### The cache -/

/-- What is cached is a chunk of one of the resources. -/
def WimCache.Sound (arc : WimArchive) (table : WimResource → Prop) (cache : WimCache) : Prop :=
  cache.cacheValid = true → ∃ res, table res ∧ res.offset = cache.cachedResOffset
    ∧ ∃ bytes, wimChunk arc wimCalm res cache.cachedChunk = .ok bytes
      ∧ ∀ i (hi : i < bytes.length), cache.chunkData i = bytes[i]

/-- No two of the resources share an offset. -/
def WimApart (table : WimResource → Prop) : Prop :=
  ∀ res res', table res → table res' → res.offset = res'.offset → res = res'

variable {table : WimResource → Prop}

/-- Afterwards the chunk is there as it decodes; a failure leaves nothing that counts. -/
theorem wimLoad_spec (hapart : WimApart table) (hres : table res) (hs : cache.Sound arc table) :
    (wimLoad arc faults res cache chunk).2.Sound arc table
      ∧ ((wimLoad arc faults res cache chunk).1 = .ok () →
        ∃ bytes, wimChunk arc wimCalm res chunk = .ok bytes
          ∧ ∀ i (hi : i < bytes.length),
            (wimLoad arc faults res cache chunk).2.chunkData i = bytes[i]) := by
  rw [wimLoad]
  split_ifs with hmiss
  · cases hchunk : wimChunk arc faults res chunk with
    | error e => exact ⟨(fun h => by cases h), fun h => by cases h⟩
    | ok bytes =>
      have hcalm := wimChunk_calm hchunk
      have hover : ∀ i (hi : i < bytes.length), cache.chunkData.over bytes i = bytes[i] := by
        intro i hi
        rw [Buf.over, List.getD_eq_getElem?_getD, List.getElem?_eq_getElem hi, Option.getD_some]
      exact ⟨fun _ => ⟨res, hres, rfl, bytes, hcalm, hover⟩, fun _ => ⟨bytes, hcalm, hover⟩⟩
  · rw [not_or, not_or, not_not, not_not, not_not] at hmiss
    obtain ⟨hvalid, hoffset, hchunk⟩ := hmiss
    obtain ⟨res', hres', hoffset', bytes, hbytes, hdata⟩ := hs hvalid
    obtain rfl := hapart res res' hres hres' (hoffset.trans hoffset'.symm)
    exact ⟨hs, fun _ => ⟨bytes, hchunk ▸ hbytes, hdata⟩⟩

/-- Where a place of a resource is in the decoded chunks. -/
theorem wimConcat_getElem? {i : ℕ} (hi : i < res.len) :
    (Blocks.concat (wimDecoded arc res) res.chunks)[i]?
      = (wimDecoded arc res (i / WIM_CHUNK_LEN))[i % WIM_CHUNK_LEN]? := by
  have hsplit := Nat.div_add_mod i WIM_CHUNK_LEN
  have hmod := Nat.mod_lt i (show 0 < WIM_CHUNK_LEN by decide)
  have hchunk : i / WIM_CHUNK_LEN * WIM_CHUNK_LEN < res.len := by
    rw [Nat.mul_comm]
    omega
  have hblocks := @Blocks.getElem?_concat _ (wimDecoded arc res) WIM_CHUNK_LEN res.chunks
    (i / WIM_CHUNK_LEN) (i % WIM_CHUNK_LEN) (fun k hk => ?_) ?_ ?_
  · rwa [Nat.mul_comm, hsplit] at hblocks
  · rw [WimResource.chunks, WIM_CHUNK_LEN] at hk
    rw [length_wimDecoded (by rw [WIM_CHUNK_LEN]; omega), WimResource.chunkLen, WIM_CHUNK_LEN]
    omega
  · rw [WimResource.chunks, WIM_CHUNK_LEN]
    rw [WIM_CHUNK_LEN] at hchunk
    omega
  · rw [length_wimDecoded hchunk, WimResource.chunkLen]
    rw [Nat.mul_comm] at hsplit
    omega

/-- A round of the loop gives a part of the content, whatever is cached. -/
theorem wimPiece_spec (hapart : WimApart table) (hres : table res) {offset len : ℕ}
    (hs : cache.Sound arc table) :
    (wimPiece arc faults res cache offset len).2.Sound arc table
      ∧ (0 < len → offset + len ≤ res.len → ∀ bs,
        (wimPiece arc faults res cache offset len).1 = .ok bs → bs.length ≤ len
          ∧ History.Agrees (fun i b => (Blocks.concat (wimDecoded arc res) res.chunks)[i]? = some b)
            offset bs) := by
  obtain ⟨hsound, hok⟩ := @wimLoad_spec arc faults res cache (offset / WIM_CHUNK_LEN) table hapart
    hres hs
  rw [wimPiece]
  cases hload : wimLoad arc faults res cache (offset / WIM_CHUNK_LEN) with
  | mk r cache' =>
  rw [hload] at hsound hok
  cases r with
  | error e => exact ⟨hsound, fun _ _ bs h => by cases h⟩
  | ok u =>
  refine ⟨hsound, fun hlen hin bs h => ?_⟩
  obtain rfl := Except.ok.inj h
  obtain ⟨bytes, hbytes, hdata⟩ := hok rfl
  rw [Buf.length_list]
  refine ⟨Nat.min_le_right _ _, History.agrees_iff_getElem.mpr fun i hi => ?_⟩
  rw [Buf.length_list] at hi
  have hsplit := Nat.div_add_mod offset WIM_CHUNK_LEN
  have hdiv : (offset + i) / WIM_CHUNK_LEN = offset / WIM_CHUNK_LEN := by
    rw [WIM_CHUNK_LEN] at hi ⊢
    omega
  have hmod : (offset + i) % WIM_CHUNK_LEN = offset % WIM_CHUNK_LEN + i := by
    rw [WIM_CHUNK_LEN] at hi ⊢
    omega
  have hchunk : offset / WIM_CHUNK_LEN * WIM_CHUNK_LEN < res.len := by
    rw [Nat.mul_comm]
    omega
  have hdecoded : wimDecoded arc res (offset / WIM_CHUNK_LEN) = bytes := by
    rw [wimDecoded, hbytes]
  have hlength := wimChunk_length hchunk hbytes
  have hplace : offset % WIM_CHUNK_LEN + i < bytes.length := by
    rw [hlength, WimResource.chunkLen]
    rw [Nat.mul_comm] at hsplit
    omega
  rw [wimConcat_getElem? (by omega), hdiv, hmod, hdecoded, List.getElem?_eq_getElem hplace,
    Buf.getElem_list, hdata _ hplace]

theorem wimPiece_sound (hapart : WimApart table) (hres : table res) {offset len : ℕ}
    (hs : cache.Sound arc table) : (wimPiece arc faults res cache offset len).2.Sound arc table :=
  (wimPiece_spec hapart hres hs).1

/-- A read that succeeds was inside the resource. -/
theorem grubWimGetResource_in {offset len : ℕ} {bs : List UInt8} (hlen : len ≠ 0)
    (h : (grubWimGetResource arc faults res cache offset len).1 = .ok bs) :
    u64 (offset + len) ≤ res.len ∧ offset ≤ u64 (offset + len) := by
  rw [grubWimGetResource, if_neg hlen] at h
  split_ifs at h <;> exact ⟨by omega, by omega⟩

/-- A read that succeeds gives the content, whatever is cached. -/
theorem grubWimGetResource_spec (hapart : WimApart table) (hres : table res) {offset len : ℕ}
    (hoffset : offset < 2 ^ 64) (hlen : len < 2 ^ 64) (hs : cache.Sound arc table) :
    (grubWimGetResource arc faults res cache offset len).2.Sound arc table
      ∧ ∀ bs, (grubWimGetResource arc faults res cache offset len).1 = .ok bs →
        bs = wimContent arc res offset len := by
  have hread : (History.readAll wimStuck (wimPiece arc faults res) len cache offset len).2.Sound
      arc table :=
    History.readAll_inv (fun t off n ht => wimPiece_sound hapart hres ht) _ _ _ _ hs
  by_cases hzero : len = 0
  · subst hzero
    refine ⟨by rw [grubWimGetResource, if_pos rfl]; exact hs, fun bs h => ?_⟩
    rw [grubWimGetResource, if_pos rfl] at h
    rw [← Except.ok.inj h, wimContent]
    split_ifs
    · rw [List.take_zero]
    · rfl
  refine ⟨?_, fun bs h => ?_⟩
  · rw [grubWimGetResource]
    split_ifs with hrange hdevice hpacked hstored
    · exact hs
    · exact hs
    · exact hs
    · exact hread
    · cases wimDiskRead arc faults (res.offset + offset) len <;> exact hs
  obtain ⟨hin, hwrap⟩ := grubWimGetResource_in hzero h
  have hsum : u64 (offset + len) = offset + len := u64_of_lt (by
    by_contra hover
    rw [u64] at hwrap
    omega)
  rw [hsum] at hin
  rw [grubWimGetResource, if_neg hzero] at h
  rw [wimContent]
  split_ifs at h ⊢ with hrange hdevice hpacked hstored
  · obtain ⟨hlength, hagrees⟩ := @History.readAll_agrees_within _ _ _ wimStuck _
      (fun t => t.Sound arc table)
      (fun i b => (Blocks.concat (wimDecoded arc res) res.chunks)[i]? = some b)
      (fun off n => off + n ≤ res.len)
      (fun off n k hin hk => by omega)
      (fun t off n cs ht hin hn hcs =>
        ⟨wimPiece_sound hapart hres ht, (wimPiece_spec hapart hres ht).2 hn hin cs hcs⟩)
      len cache offset len bs hs hin h
    refine List.ext_getElem? fun i => ?_
    rw [List.getElem?_take, List.getElem?_drop]
    split_ifs with hi
    · have hi' : i < bs.length := by omega
      rw [List.getElem?_eq_getElem hi', History.agrees_iff_getElem.mp hagrees i hi']
    · rw [List.getElem?_eq_none (by omega)]
  · revert h
    rw [wimDiskRead]
    cases faults (u64 (res.offset + offset)) len with
    | some e => exact fun h => by cases h
    | none => exact fun h => (Except.ok.inj h).symm

/-! ### The steps of a directory -/

section Walk

variable {τ : Type} {hook : τ → List UInt8 → WimNode → ℤ × τ}

/-- How the code computes a step. -/
def WimStep.Computed (step : WimStep) : Prop := step.next = u64 (step.pos + wimRound step.len)

/-- The length is one that a step can be made with. -/
def WimStep.Fits (step : WimStep) : Prop := step.len ≠ 0 ∧ step.after < 2 ^ 64

/-- A step leads ahead, to where it should, just when its length fits. -/
theorem WimStep.Computed.fits_iff {step : WimStep} (h : step.Computed) :
    step.pos < step.next ∧ step.next = step.after ↔ step.Fits := by
  rw [WimStep.Computed] at h
  rw [WimStep.Fits, WimStep.after]
  constructor
  · rintro ⟨hlt, heq⟩
    refine ⟨fun hzero => ?_, ?_⟩
    · rw [hzero] at heq
      omega
    · rw [← heq, h]
      exact u64_lt _
  · rintro ⟨hlen, hafter⟩
    rw [wimRound, show u64 (step.len + 7) = step.len + 7 from u64_of_lt (by omega), u64_of_lt hafter] at h
    exact ⟨by omega, h⟩

theorem WimChain.lt {a b : ℕ} {steps : List WimStep} (h : WimChain a steps b)
    (hsteps : ∀ step ∈ steps, step.pos < step.next) : a ≤ b ∧ (steps ≠ [] → a < b) := by
  induction steps generalizing a with
  | nil => exact ⟨Nat.le_of_eq h, fun hne => absurd rfl hne⟩
  | cons step steps ih =>
    obtain ⟨hpos, hrest⟩ := h
    have hstep := hsteps step List.mem_cons_self
    have hle := (ih hrest fun step hmem => hsteps step (List.mem_cons_of_mem _ hmem)).1
    exact ⟨by omega, fun _ => by omega⟩

theorem wimStreams_spec {streams next : ℕ} {hash : List UInt8} :
    (∀ step ∈ (wimStreams arc faults res streams cache next hash).2.2, step.Computed)
      ∧ ∀ r, (wimStreams arc faults res streams cache next hash).1 = .ok r →
        WimChain next (wimStreams arc faults res streams cache next hash).2.2 r.1 := by
  induction streams generalizing cache next hash with
  | zero => exact ⟨(fun _ h => by cases h), fun r h => (Except.ok.inj h) ▸ rfl⟩
  | succ streams ih =>
    rw [wimStreams]
    cases hget : grubWimGetResource arc faults res cache next 38 with
    | mk r cache' =>
    cases r with
    | error e => exact ⟨(fun _ h => by cases h), fun _ h => by cases h⟩
    | ok bs =>
      dsimp only
      split_ifs with hzero
      · exact ⟨(fun _ h => by cases h), fun _ h => by cases h⟩
      all_goals
        obtain ⟨hcomputed, hchain⟩ := @ih cache' (u64 (next + wimRound (lostLe64 (wimEntry bs) 0))) _
        refine ⟨fun step hmem => ?_, fun r h => ⟨rfl, hchain r h⟩⟩
        rcases List.mem_cons.mp hmem with rfl | hmem
        · rfl
        · exact hcomputed step hmem

/-- What is gone over in a round is computed step by step; when the loop goes on, it has read the
length of an entry and gone over it. -/
theorem wimVisit_spec {s : WimWalk τ} :
    (∀ step ∈ (wimVisit arc faults res hook s).1, step.Computed)
      ∧ ∀ s', (wimVisit arc faults res hook s).2 = .inl s' → s.offset < res.len
        ∧ (wimVisit arc faults res hook s).1 ≠ []
        ∧ WimChain s.offset (wimVisit arc faults res hook s).1 s'.offset := by
  rw [wimVisit]
  cases hfirst : grubWimGetResource arc faults res s.cache s.offset 8 with
  | mk r cache₁ =>
  cases r with
  | error e => exact ⟨(fun _ h => by cases h), fun _ h => by cases h⟩
  | ok bs₁ =>
  dsimp only
  split_ifs with hlast
  · exact ⟨(fun _ h => by cases h), fun _ h => by cases h⟩
  have hin : s.offset < res.len := by
    obtain ⟨hle, hwrap⟩ := grubWimGetResource_in (by decide) (congrArg Prod.fst hfirst)
    rw [u64] at hle hwrap
    omega
  cases hsecond : grubWimGetResource arc faults res cache₁ s.offset 102 with
  | mk r cache₂ =>
  cases r with
  | error e => exact ⟨(fun _ h => by cases h), fun _ h => by cases h⟩
  | ok bs =>
  dsimp only
  obtain ⟨hcomputed, hchain⟩ := @wimStreams_spec arc faults res cache₂
    (lostLe16 (wimEntry bs) 96) (u64 (s.offset + wimRound (lostLe64 (wimEntry bs) 0)))
    ((wimEntry bs).list 64 WIM_HASH_LEN)
  cases hstreams : wimStreams arc faults res (lostLe16 (wimEntry bs) 96) cache₂
      (u64 (s.offset + wimRound (lostLe64 (wimEntry bs) 0)))
      ((wimEntry bs).list 64 WIM_HASH_LEN) with
  | mk r rest =>
  obtain ⟨cache₃, steps⟩ := rest
  rw [hstreams] at hcomputed hchain
  have hall : ∀ step ∈ (⟨s.offset, lostLe64 (wimEntry bs) 0,
      u64 (s.offset + wimRound (lostLe64 (wimEntry bs) 0))⟩ : WimStep) :: steps, step.Computed := by
    intro step hmem
    rcases List.mem_cons.mp hmem with rfl | hmem
    · rfl
    · exact hcomputed step hmem
  cases r with
  | error e => exact ⟨hall, fun _ h => by cases h⟩
  | ok r =>
  obtain ⟨next', hash⟩ := r
  refine ⟨hall, fun s' h => ⟨hin, List.cons_ne_nil _ _, rfl, ?_⟩⟩
  have hnext := hchain (next', hash) rfl
  have hoffset : s'.offset = next' := by
    dsimp only at h
    split_ifs at h with hname
    · exact Sum.inl.inj h ▸ rfl
    · revert h
      cases grubWimGetResource arc faults res cache₃ (u64 (s.offset + 102))
          (lostLe16 (wimEntry bs) 100) with
      | mk r cache₄ =>
      cases r with
      | error e => exact fun h => by cases h
      | ok name =>
        dsimp only
        split_ifs
        · exact fun h => by cases h
        · exact fun h => Sum.inl.inj h ▸ rfl
  rw [hoffset]
  exact hnext

theorem grubWimIterateDir_ends {subdir : ℕ} {hookData : τ}
    (hfits : ∀ s, WimReached arc faults res hook ⟨subdir, cache, hookData⟩ s →
      ∀ step ∈ (wimVisit arc faults res hook s).1, step.Fits) :
    ∃ fuel, (grubWimIterateDir arc faults res hook fuel subdir cache hookData).isSome := by
  by_cases hroot : subdir = 0
  · exact ⟨0, by rw [grubWimIterateDir, if_pos hroot]; rfl⟩
  obtain ⟨fuel, r, hr⟩ := @FuelLoop.exists_run _ _ (fun s => (wimVisit arc faults res hook s).2)
    (WimReached arc faults res hook ⟨subdir, cache, hookData⟩)
    (fun s' s => res.len - s'.offset < res.len - s.offset)
    (InvImage.wf (fun s : WimWalk τ => res.len - s.offset) Nat.lt_wfRel.wf)
    (fun s s' hs hnext => by
      obtain ⟨hcomputed, hgoes⟩ := @wimVisit_spec arc faults res τ hook s
      obtain ⟨hin, hne, hchain⟩ := hgoes s' hnext
      have hlt := (hchain.lt fun step hmem =>
        ((hcomputed step hmem).fits_iff.mpr (hfits s hs step hmem)).1).2 hne
      exact ⟨hs.next hnext, by omega⟩) _ .start
  exact ⟨fuel, by rw [grubWimIterateDir, if_neg hroot, hr]; rfl⟩

end Walk

/-- One entry at 8, of length 2 ^ 64 - 1 and without a name, in a resource that is stored. -/
def wrappingWim : WimArchive where
  device := Buf.ofFields [(8, [0xff, 0xff, 0xff, 0xff, 0xff, 0xff, 0xff, 0xff])]
  size := 512
  flags := 0
  lzxDecompress _ := none
  xcaDecompress _ := none

def wrappingResource : WimResource := ⟨256, 0, 256, by decide⟩

def wrappingWalk : WimWalk Unit := ⟨8, ⟨false, 0, 0, fun _ => 0⟩, ()⟩

theorem wrappingWim_visit (hook : Unit → List UInt8 → WimNode → ℤ × Unit) :
    wimVisit wrappingWim wimCalm wrappingResource hook wrappingWalk
      = ([⟨8, 2 ^ 64 - 1, 8⟩], .inl wrappingWalk) := by
  rfl

end FsRover
