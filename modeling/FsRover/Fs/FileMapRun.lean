import FsRover.Fs.FileMap

/-!
# Asking where a file lies, with stops

`grub_file_map_range_ex` with a hook and a cancel hook that may stop the run at any step: each
answer of the two is given by its number. A driver hands over extents and polls in between, up to the first
extent refused. Where an extent of zeros comes with storage, the source reads a local that was not
set; what it reads there stands as a parameter.

## Main definitions

* `FsRover.FileMapRun` : `struct grub_file_map_context` with what the hook was given.
* `FsRover.FileMapRun.emit`, `FsRover.FileMapRun.drive` : an extent, and all a driver does.
-/

namespace FsRover

/-- `struct grub_file_map_context` with the number of polls and what the hook was given. -/
structure FileMapRun where
  start : ℕ
  stop : ℕ
  next : ℕ
  disk : Option FileMapDisk
  stopped : Bool
  polls : ℕ
  pending : Option FileMapExtent
  pendingStorage : FileMapStorage
  hooked : List FileMapExtent

/-- What a driver does between its start and its end. -/
inductive FileMapAction
  | emit (e : FileMapExtent)
  | poll

/-- The extent of an action. -/
def FileMapAction.extent? : FileMapAction → Option FileMapExtent
  | .emit e => some e
  | .poll => none

namespace FileMapRun

section Hooks

variable (cancels hook : ℕ → Bool)

/-- `grub_file_map_cancelled`; `stopped` says what it returns. -/
def cancelled (run : FileMapRun) : FileMapRun :=
  if run.stopped then run else { run with stopped := cancels run.polls, polls := run.polls + 1 }

/-- The hook gets an extent, unless the run is cancelled before. -/
def give (run : FileMapRun) (e : FileMapExtent) : FileMapRun :=
  let run := cancelled cancels run
  if run.stopped then run
  else { run with stopped := hook run.hooked.length, hooked := run.hooked ++ [e] }

/-- `grub_file_map_flush`. -/
def flush (run : FileMapRun) : FileMapRun :=
  match run.pending with
  | some p => { give cancels hook run p with pending := none }
  | none => run

/-- The loop of `grub_file_map_emit` over the storage; it ends early when the run is stopped. -/
def checkAll : List FileMapStorage → FileMapRun → Option GrubError × FileMapRun
  | [], run => (none, run)
  | s :: storage, run =>
    let run := cancelled cancels run
    if run.stopped then (none, run)
    else if s.length = 0 ∨ 2 ^ 64 ≤ s.offset + s.length then
      (some ⟨.badFs, "invalid storage mapping range"⟩, run)
    else
      match grubFileMapCheckStorage run.disk s (s.offset + s.length) with
      | some e => (some e, run)
      | none => checkAll storage run

/-- The clipping in `grub_file_map_emit`, from `left` on. -/
def clip (run : FileMapRun) (e : FileMapExtent) (left : ℕ) : Except GrubError FileMapExtent :=
  fileMapClip ⟨run.start, run.stop, run.next, run.disk, none, []⟩ e left

variable (unset : ℕ → FileMapStorage)

/-- The local `storage`. -/
def localStorage (run : FileMapRun) (e : FileMapExtent) : FileMapStorage :=
  if e.has GRUB_FILE_MAP_DIRECT then e.storage.headD (unset run.next) else unset run.next

/-- The extent goes on where the pending one ends, in the file and on the volume. -/
def follows (run : FileMapRun) (p e : FileMapExtent) (s : FileMapStorage) : Bool :=
  p.flags = e.flags && p.logicalOffset + p.logicalLength = e.logicalOffset
    && (e.storage = [] || (run.pendingStorage.addressSpace = s.addressSpace
      && u64 (run.pendingStorage.offset + run.pendingStorage.length) = s.offset))

/-- An extent takes the place of the pending one. -/
def hold (run : FileMapRun) (e : FileMapExtent) (s : FileMapStorage) : FileMapRun :=
  if e.storage = [] then { run with pending := some e }
  else { run with pending := some { e with storage := [s] }, pendingStorage := s }

/-- The pending extent grows by one that follows it. -/
def grow (run : FileMapRun) (p e : FileMapExtent) : FileMapRun :=
  let s := { run.pendingStorage with length := run.pendingStorage.length + e.logicalLength }
  { run with
    pending := some { p with
      logicalLength := p.logicalLength + e.logicalLength
      storage := if p.storage = [] then [] else [s] }
    pendingStorage := s }

/-- The end of `grub_file_map_emit`: a plain extent is joined to the pending one or takes its place,
another one goes to the hook. -/
def pass (run : FileMapRun) (e : FileMapExtent) : FileMapRun :=
  let s := localStorage unset run e
  let run := { run with next := e.logicalOffset + e.logicalLength }
  if e.flags = GRUB_FILE_MAP_DIRECT ∨ e.flags = GRUB_FILE_MAP_ZERO + GRUB_FILE_MAP_HOLE then
    match run.pending.filter fun p => follows run p e s with
    | some p => grow run p e
    | none => hold (flush cancels hook run) e s
  else give cancels hook (flush cancels hook run) e

/-- `grub_file_map_emit` once the extent overlaps the query and its storage is checked. -/
def place (run : FileMapRun) (e : FileMapExtent) : Option GrubError × FileMapRun :=
  if e.has GRUB_FILE_MAP_TRANSFORMED ∧ e.storage ≠ [] ∧ e.decodedLength ≠ 0
    ∧ (e.decodedLength < e.decodedOffset ∨ e.decodedLength - e.decodedOffset < e.logicalLength) then
    (some ⟨.badFs, "invalid decoded mapping range"⟩, run)
  else
    let left := max e.logicalOffset run.start
    if left ≠ run.next then (some ⟨.badFs, "incomplete or overlapping mapping"⟩, run)
    else
      match clip run e left with
      | .error err => (some err, run)
      | .ok e => (none, pass cancels hook unset run e)

/-- `grub_file_map_emit`: the error if there is one, and the run. -/
def emit (run : FileMapRun) (e : FileMapExtent) : Option GrubError × FileMapRun :=
  let run := cancelled cancels run
  if run.stopped then (none, run)
  else if e.logicalLength = 0 ∨ 2 ^ 64 ≤ e.logicalOffset + e.logicalLength then
    (some ⟨.badFs, "invalid mapping range"⟩, run)
  else if e.logicalOffset + e.logicalLength ≤ run.start ∨ run.stop ≤ e.logicalOffset then
    (none, run)
  else
    match checkAll cancels e.storage run with
    | (some err, run) => (some err, run)
    | (none, run) => if run.stopped then (none, run) else place cancels hook unset run e

/-- A driver: its actions up to the first extent refused, and then the error of its own if any. -/
def drive (fails : Option GrubError) :
    List FileMapAction → FileMapRun → Option GrubError × FileMapRun
  | [], run => (fails, run)
  | .poll :: actions, run => drive fails actions (cancelled cancels run)
  | .emit e :: actions, run =>
    match emit cancels hook unset run e with
    | (some err, run) => (some err, run)
    | (none, run) => drive fails actions run

end Hooks

end FileMapRun

/-- What `grub_file_map_range_ex` returns and gives: the error if there is one, `stopped`, and what
the hook was given. -/
structure FileMapAnswer where
  err : Option GrubError
  stopped : Bool
  hooked : List FileMapExtent

section Range

variable (cancels hook : ℕ → Bool) (unset : ℕ → FileMapStorage)

/-- `grub_file_map_range_ex` on a file of `size` bytes whose driver, if it maps at all, does
`actions` and then fails with `fails` or not. -/
def grubFileMapRangeEx (disk : Option FileMapDisk) (size : ℕ)
    (driver : Option (List FileMapAction × Option GrubError)) (offset length : ℕ) : FileMapAnswer :=
  if 2 ^ 64 ≤ offset + length then ⟨some ⟨.badArgument, "invalid mapping query"⟩, false, []⟩
  else if size = 2 ^ 64 - 1 then
    ⟨some ⟨.notImplementedYet, "mapping requires known file size"⟩, false, []⟩
  else
    let run := FileMapRun.cancelled cancels
      ⟨offset, min (offset + length) size, offset, disk, false, 0, none, ⟨0, 0, 0⟩, []⟩
    if run.stopped then ⟨none, true, []⟩
    else if run.stop ≤ offset then ⟨none, false, []⟩
    else
      match driver with
      | none => ⟨some ⟨.notImplementedYet, "filesystem has no metadata mapping"⟩, false, []⟩
      | some (actions, fails) =>
        match FileMapRun.drive cancels hook unset fails actions run with
        | (some err, run) => ⟨some err, run.stopped, run.hooked⟩
        | (none, run) =>
          let run := FileMapRun.cancelled cancels run
          if run.stopped = false ∧ run.next ≠ run.stop then
            ⟨some ⟨.badFs, "incomplete file mapping"⟩, run.stopped, run.hooked⟩
          else
            let run := FileMapRun.flush cancels hook run
            ⟨none, run.stopped, run.hooked⟩

end Range

end FsRover
