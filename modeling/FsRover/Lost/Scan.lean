import FsRover.Lib.Loop
import FsRover.Lost.Exam

/-!
# The scan engine

`lostpart.c`: where the search looks next, what it does with a hit, the quick and the deep search
and the resumable step. The callback is a sequence of return values, one for each result passed to
it. The `while` loop of `rover_lost_scan_step` is an iteration (`FuelLoop.run`) of
`lostStepBody`.
-/

namespace FsRover

variable (env : LostSearch)

/-! ### Where to look next -/

/-- The first sector of a head at or after `x`, counted from the cylinder that contains `x`. -/
def lostNextHead (x head : ℕ) : ℕ :=
  let c := u64 (x / LOST_CYLINDER * LOST_CYLINDER + head * LOST_TRACK)
  if c < x then u64 (c + LOST_CYLINDER) else c

/-- The part of `lost_next` that does not look at the hints. -/
def lostNextGrid (x : ℕ) : ℕ :=
  let best := lostRoundUp x LOST_MIB
  if env.sectorSize = 512 then
    min (min (min best (lostNextHead x 0)) (lostNextHead x 1)) (lostNextHead x 2)
  else best

/-- `lost_next`: the smallest candidate at or after `x`, or `scan->size + 1`. -/
def lostNext (hints : List ℕ) (x : ℕ) : ℕ :=
  let best := lostNextGrid env x
  let best :=
    match hints[SortedSearch.lowerBound hints x]? with
    | some h => min best h
    | none => best
  if env.size < best then env.size + 1 else best

/-- `lost_evidence`: does a table entry, an unreadable partition or an earlier result start in
`[lo, hi)`? -/
def lostEvidence (s : LostScan) (lo hi : ℕ) : Bool :=
  s.tables.any (fun t => lo ≤ t.start && t.start < hi)
    || env.ranges.any (fun r => !r.readable && lo ≤ r.start && r.start < hi)
    || s.found.any (fun f => lo ≤ f.start && f.start < hi)

/-- `lost_jump`: continue at `endAt` unless something already points inside the range. -/
def lostJump (s : LostScan) (endAt : ℕ) : LostScan :=
  if endAt ≤ s.pos ∨ env.size < endAt ∨ lostEvidence env s s.pos endAt then s
  else { s with skips := s.skips ++ [⟨s.pos, endAt, .passed⟩], pos := endAt }

/-- `lost_next_pass`: start searching the next queued range, when there is one. -/
def lostNextPass (s : LostScan) : Option LostScan :=
  match s.skips.findIdx? (·.state = .queued), s.skips.find? (·.state = .queued) with
  | some i, some k => some { s with
      skips := s.skips.set i { k with state := .done }
      pos := k.fromOff
      limit := k.toOff
      rescanning := true }
  | _, _ => none

/-! ### Results -/

/-- The hit `lost_report` goes on with: without its remaps where the primary is intact. -/
def lostEffectiveHit (hit : LostHit) : LostHit :=
  if hit.backup && lostPrimaryOk env hit then { hit with backup := false, remap := [] } else hit

/-- The range test of `lost_report` against a readable partition; the end may have wrapped. -/
def LostRange.overlaps (r : LostRange) (start endAt : ℕ) : Bool :=
  r.readable && start < r.endAt && (r.start < endAt || endAt < start)

/-- The range test of `lost_report` against an earlier result. -/
def LostFound.overlaps (f : LostFound) (start endAt : ℕ) : Bool :=
  start < u64 (f.start + f.size) && f.start < endAt

/-- The window of a result: what the device holds of it, in whole sectors. -/
def lostWindow (hit : LostHit) (truncated : Bool) : ℕ :=
  let window := if truncated then env.size - hit.start else hit.size
  window - window % env.sectorSize

/-- The remaps that lie inside the window. -/
def lostWindowRemaps (hit : LostHit) (window : ℕ) : List LostRemap :=
  hit.remap.filter fun r =>
    r.length ≤ window && r.target ≤ window - r.length && r.source ≤ window - r.length

/-- `struct rover_lost_part` as `lost_report` fills it for a hit that ends at `endAt`. -/
def lostPart (s : LostScan) (hit : LostHit) (endAt : ℕ) : RoverLostPart :=
  let truncated := endAt < hit.start || env.size < endAt
  let window := lostWindow env hit truncated
  let remap := lostWindowRemaps hit window
  let probe := if window ≠ 0 then env.probe (hit.start / 512) (window / 512) remap else none
  { offset := hit.start
    size := hit.size
    type := hit.type
    probe := probe
    flags :=
      { verified := probe.isSome
        backup := hit.backup
        existing := env.ranges.any fun r => !r.readable && r.start == hit.start
        overlap := env.ranges.any (·.overlaps hit.start endAt)
          || s.found.any (·.overlaps hit.start endAt)
        truncated := truncated
        table := s.tables.any (·.start == hit.start) }
    window := window
    remap := remap }

/-- Entries that start at `start` are claimed by a result. -/
def lostClaim (tables : List LostTable) (start : ℕ) : List LostTable :=
  tables.map fun t => if t.start = start then { t with claimed := true } else t

/-- `lost_report` has nothing to do with a hit that is empty, lies past the device or starts in a
readable partition. -/
def lostIgnores (hit : LostHit) : Bool :=
  hit.size = 0 || env.size ≤ hit.start || (lostRangeAt env hit.start true).isSome

/-- A result with this start, size and type was reported. -/
def lostKnown (s : LostScan) (hit : LostHit) : Bool :=
  s.found.any fun f => f.start == hit.start && f.size == hit.size && f.type == hit.type

/-- The new result of `lost_report`, up to the callback. -/
def lostRecord (s : LostScan) (hit : LostHit) (endAt : ℕ) : LostScan :=
  let part := lostPart env s hit endAt
  let s := { s with
    tables := lostClaim s.tables hit.start
    found := s.found ++ [⟨hit.start, hit.size, hit.type⟩] }
  let s := lostConflict s hit.start
  let s := if part.flags.truncated then s else lostJump env (lostAddEndHints env s endAt) endAt
  { s with reports := s.reports ++ [part] }

/-- `lost_report`, with the callback's value. -/
def lostReport (cb : ℕ → Bool) (s : LostScan) (foundHit : LostHit) : LostScan × Bool :=
  if lostIgnores env foundHit then (s, false)
  else
    let hit := lostEffectiveHit env foundHit
    let endAt := u64 (hit.start + hit.size)
    if lostKnown s hit then (if hit.start < endAt then lostJump env s endAt else s, false)
    else (lostRecord env s hit endAt, cb s.reports.length)

/-- The report loop over the hits of one candidate; the callback's values are joined. -/
def lostReportAll (cb : ℕ → Bool) (s : LostScan) : List LostHit → LostScan × Bool
  | [] => (s, false)
  | h :: hs =>
    let r := lostReport env cb s h
    let rest := lostReportAll cb r.1 hs
    (rest.1, r.2 || rest.2)

/-! ### The deep search's hits -/

/-- The same filesystem: start, size and type. -/
def LostHit.same (a b : LostHit) : Bool :=
  a.start == b.start && a.size == b.size && a.type == b.type

/-- `lost_pend`. -/
def lostPend (pending : List LostHit) (hit : LostHit) : List LostHit :=
  if hit.size = 0 then pending
  else
    match pending.findIdx? (·.same hit), pending.find? (·.same hit) with
    | some i, some p => if p.backup ∧ ¬ hit.backup then pending.set i hit else pending
    | _, _ => pending ++ [hit]

/-- One round of the insertion sort of `lost_settle`: `sorted` is the sorted part from its end
on. -/
def lostInsertHit (h : LostHit) : List LostHit → List LostHit
  | [] => [h]
  | a :: sorted => if h.start < a.start then a :: lostInsertHit h sorted else h :: a :: sorted

/-- A hit of the same type and size starts inside another. -/
def LostHit.copyOf (b a : LostHit) : Bool :=
  a.size == b.size && a.type == b.type && a.start < b.start && b.start - a.start < a.size

/-- The second loop of `lost_settle`, from index `i` on: `n` rounds over an array that is compacted
while it is read, with the first `kept` places written. -/
def lostCompact (hits : List LostHit) (i kept : ℕ) : ℕ → List LostHit
  | 0 => hits.take kept
  | n + 1 =>
    match hits[i]? with
    | none => hits.take kept
    | some b =>
      if (hits.zipIdx).any (fun a => a.2 ≠ i && b.copyOf a.1) then lostCompact hits (i + 1) kept n
      else lostCompact (hits.set kept b) (i + 1) (kept + 1) n

/-- `lost_settle`. -/
def lostSettle (pending : List LostHit) : List LostHit :=
  let sorted := (pending.foldl (fun sorted h => lostInsertHit h sorted) []).reverse
  lostCompact sorted 0 0 sorted.length

/-! ### Candidates and chunks -/

/-- The bytes from `s` on as `lost_examine` gets them: zeros past the end of the device. -/
def lostWindowBuf (raw : Buf) (len : ℕ) : Buf := fun i => if i < len then raw i else 0

/-- `lost_quick_candidate`. -/
def lostQuickCandidate (scan : LostScan) (s : ℕ) (endOnly : Bool) : LostScan × List LostHit :=
  let scan := { scan with trace := .candidate s :: scan.trace }
  let tail := lostTailLen env
  let hits :=
    if tail ≤ s then
      match lostRead env (s - tail) tail with
      | some buf => lostExamineEnd env s buf
      | none => []
    else []
  if endOnly || env.size ≤ s then (scan, hits)
  else
    let len := min (env.size - s) LOST_WINDOW
    match lostRead env s len with
    | none => (scan, hits)
    | some raw =>
      let r := lostExamine env scan s (lostWindowBuf raw len) len true
      (r.1, hits ++ r.2)

/-- The buffer of `lost_deep_chunk` for the chunk `[base, last - LOST_WINDOW)`, by its distance
from `base - LOST_TAIL`. -/
def lostDeepBuf (base last : ℕ) : Buf :=
  let first := if LOST_TAIL < base then base - LOST_TAIL else 0
  fun i =>
    if first < last ∧ first + LOST_TAIL - base ≤ i ∧ i < last + LOST_TAIL - base then
      lostReadFill env first (last - first) (i - (first + LOST_TAIL - base))
    else 0

/-- One sector of `lost_deep_chunk`: the end of a volume before it at a candidate, then what
starts there, unless a readable partition does. -/
def lostDeepSector (deep : Buf) (base s : ℕ) (inRange positional : Bool) (scan : LostScan) :
    LostScan :=
  let tail := lostTailLen env
  let place := deep.from (LOST_TAIL + (s - base))
  let before := deep.from (LOST_TAIL + (s - base) - tail)
  let ends := if positional && tail ≤ s then lostExamineEnd env s before else []
  let scan :=
    if positional && tail ≤ s then { scan with trace := .tail s before :: scan.trace } else scan
  let r :=
    if !inRange && s < env.size then
      lostExamine env { scan with trace := .sector s place :: scan.trace } s place
        (min (env.size - s) LOST_WINDOW) positional
    else (scan, [])
  { r.1 with pending := (ends ++ r.2).foldl lostPend r.1.pending }

/-- The sector loop of `lost_deep_chunk`: `n` sectors from `s` on, with the next candidate. -/
def lostDeepSectors (deep : Buf) (base : ℕ) (inRange : Bool) (s candidate : ℕ) (scan : LostScan) :
    ℕ → LostScan
  | 0 => scan
  | n + 1 =>
    let candidate := if candidate < s then lostNext env scan.hints s else candidate
    lostDeepSectors deep base inRange (s + env.sectorSize) candidate
      (lostDeepSector env deep base s inRange (candidate == s) scan) n

/-- Where the chunk from `base` on ends: before the next readable partition and just past the
device end. -/
def lostDeepEnd (base : ℕ) (inRange : Bool) : ℕ :=
  let endAt := if inRange then base + 1 else u64 (base + LOST_DEEP_CHUNK)
  let endAt := env.ranges.foldl
    (fun e r => if r.readable ∧ base < r.start ∧ r.start < e then r.start else e) endAt
  if env.size + 1 < endAt then env.size + 1 else endAt

/-- `lost_deep_chunk`: the sectors `base`, `base + ss`, … below the chunk's end. -/
def lostDeepChunk (scan : LostScan) : LostScan :=
  let base := scan.pos
  match lostRangeAt env base true with
  | some r =>
    if r.start ≠ base then { scan with pos := r.endAt }
    else { lostDeepRun base true with pos := r.endAt }
  | none => { lostDeepRun base false with pos := lostDeepEnd env base false }
where
  /-- Read the chunk and examine its sectors. -/
  lostDeepRun (base : ℕ) (inRange : Bool) : LostScan :=
    let endAt := lostDeepEnd env base inRange
    let last := min (u64 (endAt + LOST_WINDOW)) env.size
    lostDeepSectors env (lostDeepBuf env base last) base inRange base
      (lostNext env scan.hints base) scan
      ((endAt - base + env.sectorSize - 1) / env.sectorSize)

/-! ### The scan -/

/-- The block sizes `rover_lost_scan_begin` looks for GPT headers in. -/
def lostGptBlockSizes : List ℕ :=
  if env.sectorSize = 512 then [512, 4096]
  else if env.sectorSize ≤ 4096 then [env.sectorSize] else []

/-- The fixed hints of `rover_lost_scan_begin`, in 512-byte sectors. -/
def lostFixedHints : List ℕ :=
  [32, 63, 16 * 63, 17 * 63, 240 * 63, 241 * 63, 255 * 63, 256 * 63, 34]

/-- The hints of one partition: its start when GRUB does not read it, and its end. -/
def lostRangeHints (s : LostScan) (r : LostRange) : LostScan :=
  lostAddEndHints env (if r.readable then s else lostAddHint env s r.start) r.endAt

/-- Both GPT headers in one block size. -/
def lostGptBoth (s : LostScan) (lbaSize : ℕ) : LostScan :=
  lostGpt env (lostGpt env s lbaSize 1) lbaSize (sub64 (env.size / lbaSize) 1)

/-- `rover_lost_scan_begin`. -/
def roverLostScanBegin : LostScan :=
  let s := env.ranges.foldl (lostRangeHints env) .empty
  let s := (lostGptBlockSizes env).foldl (lostGptBoth env) s
  let s := lostFixedHints.foldl (fun s h => lostAddHint env s (h * 512)) s
  let s := lostAddHint env s env.size
  { s with pos := env.origin }

/-- How a round of the loop in `rover_lost_scan_step` ends: it goes on, starts a queued range,
or leaves the loop because the callback asks for it. -/
inductive LostExit
  | next | pass | pause
  deriving DecidableEq, Repr

/-- A round once the search is over: kept hits, then unclaimed table entries, then done. -/
def lostFinishRound (cb : ℕ → Bool) (s : LostScan) : LostScan × LostExit :=
  match s.pending[s.nextPending]? with
  | some hit =>
    let r := lostReport env cb { s with nextPending := s.nextPending + 1 } hit
    (r.1, if r.2 then .pause else .next)
  | none =>
    match s.tables[s.nextTable]? with
    | none => ({ s with done := true }, .pause)
    | some t =>
      let s := { s with nextTable := s.nextTable + 1 }
      if t.claimed then (s, .next)
      else
        let r := lostReport env cb s (lostSetHit t.start t.size .partition false)
        (r.1, if r.2 then .pause else .next)

/-- A round of the deep search. -/
def lostDeepRound (s : LostScan) : LostScan × LostExit :=
  if env.size < s.pos then
    ({ s with pending := lostSettle s.pending, pos := env.size, finishing := true }, .next)
  else (lostDeepChunk env s, .next)

/-- A round of the quick search at candidate `c`, after `scan->pos = c + 1`. -/
def lostQuickVisit (cb : ℕ → Bool) (s : LostScan) (c : ℕ) : LostScan × LostExit :=
  if c % env.sectorSize ≠ 0 then (s, .next)
  else
    match lostRangeAt env c true with
    | some r => if r.start ≠ c then ({ s with pos := r.endAt }, .next) else visit true
    | none => visit false
where
  /-- Examine the candidate and report what it gives. -/
  visit (endOnly : Bool) : LostScan × LostExit :=
    let q := lostQuickCandidate env s c endOnly
    let r := lostReportAll env cb q.1 q.2
    (r.1, if r.2 then .pause else .next)

/-- A round of the quick search. -/
def lostQuickRound (cb : ℕ → Bool) (s : LostScan) : LostScan × LostExit :=
  let c := lostNext env s.hints s.pos
  if env.size < c ∨ s.limit ≤ c then
    match lostNextPass s with
    | none => ({ s with finishing := true }, .next)
    | some s => (s, .pass)
  else lostQuickVisit env cb { s with pos := c + 1 } c

/-- One round of the loop in `rover_lost_scan_step`, after the tests for its end. -/
def lostRound (cb : ℕ → Bool) (s : LostScan) : LostScan × LostExit :=
  if s.finishing then lostFinishRound env cb s
  else if env.deep then lostDeepRound env s
  else lostQuickRound env cb s

/-- The loop body of `rover_lost_scan_step` on the scan and the local variable `stop`. -/
def lostStepBody (cb : ℕ → Bool) (budget : ℕ) (l : LostScan × ℕ) :
    (LostScan × ℕ) ⊕ LostScan :=
  let (s, stop) := l
  if s.done then .inr s
  else if ¬ s.finishing ∧ stop ≤ s.pos then .inr s
  else
    match lostRound env cb s with
    | (s, .next) => .inl (s, stop)
    | (s, .pass) => .inl (s, if budget ≠ 0 then u64 (s.pos + budget) else stop)
    | (s, .pause) => .inr s

/-- The position up to which a step may search. -/
def lostStop (pos budget : ℕ) : ℕ :=
  let stop := u64 (pos + budget)
  if budget = 0 ∨ stop < pos then 2 ^ 64 - 1 else stop

/-- The position a step leaves behind is not past the device end. -/
def lostClamp (s : LostScan) : LostScan :=
  if env.size < s.pos ∨ s.done then { s with pos := env.size } else s

/-- `rover_lost_scan_step`: the value it returns and the scan it leaves, when the fuel for its loop
suffices. -/
def roverLostScanStep (fuel : ℕ) (cb : ℕ → Bool) (s : LostScan) (budget : ℕ) :
    Option (ℕ × LostScan) :=
  (FuelLoop.run (lostStepBody env cb budget) fuel (s, lostStop s.pos budget)).map fun s =>
    (if s.done then 0 else 1, lostClamp env s)

/-- `rover_lost_scan_progress`: bytes done and total. -/
def roverLostScanProgress (s : LostScan) : ℕ × ℕ :=
  (if s.done ∨ s.rescanning then env.size else s.pos, env.size)

end FsRover
