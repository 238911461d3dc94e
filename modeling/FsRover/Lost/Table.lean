import FsRover.Lost.State

/-!
# Search hints, stepped-over ranges and partition table entries

`lost_add_hint`, `lost_add_end_hints` and `lost_conflict` of `lostpart.c`, and `losttable.c`: the
entries of the GPT tables that GRUB skips.
-/

namespace FsRover

variable (env : LostSearch)

/-- `lost_add_hint`. -/
def lostAddHint (s : LostScan) (offset : ℕ) : LostScan :=
  if env.size < offset ∨ offset % env.sectorSize ≠ 0 then s
  else if s.hints[SortedSearch.lowerBound s.hints offset]? = some offset then s
  else
    { s with
      hints := SortedSearch.insertNew s.hints offset
      trace := .hint offset s.pos s.limit s.skips s.finishing :: s.trace }

/-- The offsets that `lost_add_end_hints` tries, in its order. -/
def lostEndHints (endAt : ℕ) : List ℕ :=
  if env.sectorSize ≠ 512 then [endAt]
  else
    [endAt, u64 (endAt + LOST_TRACK), lostRoundUp endAt LOST_TRACK,
      u64 (lostRoundUp endAt LOST_TRACK + LOST_TRACK)]

/-- `lost_add_end_hints`: where the partition after one that ends at `endAt` would start. -/
def lostAddEndHints (s : LostScan) (endAt : ℕ) : LostScan :=
  (lostEndHints env endAt).foldl (lostAddHint env) s

/-- One round of `lost_conflict`. -/
def LostSkip.conflict (start : ℕ) (k : LostSkip) : LostSkip :=
  if k.state = .passed ∧ k.fromOff ≤ start ∧ start < k.toOff then { k with state := .queued } else k

/-- `lost_conflict`: something starts at `start`, so the range stepped over with it is searched
again. -/
def lostConflict (s : LostScan) (start : ℕ) : LostScan :=
  { s with skips := s.skips.map (·.conflict start) }

/-- `lost_add_table`: remember an entry, unless GRUB lists it or it is known. -/
def lostAddTable (s : LostScan) (start size : ℕ) : LostScan :=
  if size = 0 ∨ start % env.sectorSize ≠ 0 ∨ env.size ≤ start then s
  else if env.ranges.any (fun r => r.start == start && sub64 r.endAt start == size) then s
  else if s.tables.any (fun t => t.start == start && t.size == size) then s
  else
    let s := { s with
      tables := s.tables ++ [⟨start, size, false⟩]
      trace := .table start size (s.found.map (·.start)) :: s.trace }
    let s := lostConflict s start
    let s := lostAddHint env s start
    if start < u64 (start + size) ∧ u64 (start + size) ≤ env.size then
      lostAddEndHints env s (u64 (start + size))
    else s

/-- The entry loop of `lost_gpt`: `n` entries from number `i` on. -/
def lostGptEntries (entries : Buf) (entrySize lbaSize : ℕ) (s : LostScan) (i : ℕ) : ℕ → LostScan
  | 0 => s
  | n + 1 =>
    let e := entries.from (i * entrySize)
    let first := lostLe64 e 32
    let last := lostLe64 e 40
    let s :=
      if zerosAt e 0 16 ∨ first = 0 ∨ last < first ∨ (2 ^ 64 - 1) / lbaSize ≤ last then s
      else lostAddTable env s (first * lbaSize) ((last - first + 1) * lbaSize)
    lostGptEntries entries entrySize lbaSize s (i + 1) n

/-- The header with its own checksum field zeroed. -/
def lostGptHeader (hdr : Buf) : Buf := fun i => if 16 ≤ i ∧ i < 20 then 0 else hdr i

/-- `lost_gpt`: the GPT header at block `lba` and its entries, both checksummed. -/
def lostGpt (s : LostScan) (lbaSize lba : ℕ) : LostScan :=
  if LOST_WINDOW < lbaSize ∨ env.size < u64 (u64 (lba + 1) * lbaSize) then s
  else
    match lostRead env (u64 (lba * lbaSize)) lbaSize with
    | none => s
    | some raw =>
      let hdr := lostGptHeader raw
      let hdrSize := lostLe32 hdr 12
      let count := lostLe32 hdr 80
      let entrySize := lostLe32 hdr 84
      let entriesOff := u64 (lostLe64 hdr 72 * lbaSize)
      let len := count * entrySize
      if ¬ bytesAt raw 0 [0x45, 0x46, 0x49, 0x20, 0x50, 0x41, 0x52, 0x54] then s  -- "EFI PART"
      else if hdrSize < 92 ∨ lbaSize < hdrSize then s
      else if lostCrc32 hdr hdrSize ≠ lostLe32 raw 16 ∨ lostLe64 hdr 24 ≠ lba
          ∨ lostLe64 hdr 48 ≤ lostLe64 hdr 40 then s
      else if count = 0 ∨ LOST_GPT_MAX_ENTRIES < count ∨ entrySize < 128 ∨ 4096 < entrySize
          ∨ entrySize % 8 ≠ 0 ∨ entriesOff / lbaSize ≠ lostLe64 hdr 72 then s
      else if env.size < entriesOff ∨ env.size - entriesOff < len then s
      else
        match lostRead env entriesOff len with
        | none => s
        | some entries =>
          if lostCrc32 entries len ≠ lostLe32 hdr 88 then s
          else lostGptEntries env entries entrySize lbaSize s 0 count

end FsRover
