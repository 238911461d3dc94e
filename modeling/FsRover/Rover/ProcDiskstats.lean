import FsRover.Fs.Fshelp
import FsRover.Lib.History
import FsRover.Lib.Tally

/-!
# Disk statistics

`proc.c` counts the reads and the cache lookups of each disk in a table that `diskstats` of the
`proc` file system shows. A row holds a copy of the name of its disk, cut to the buffer of the row.

## Main definitions

* `FsRover.procStep` : the calls and the listings in between, in which nothing is counted.
* `FsRover.procRecorded`, `FsRover.diskTotals` : the events that are counted, and their totals.

## Main results

* `FsRover.diskstats_exact` : the table holds the totals if no name is longer than its copy.
-/

namespace FsRover

def ROVER_PROC_STATS_MAX : ℕ := 256
def ROVER_PROC_NAME_MAX : ℕ := 128

/-! ### The table -/

/-- `struct rover_proc_diskstat`. -/
structure ProcDiskstat where
  name : Name
  reads : ℕ
  bytes : ℕ
  cacheHits : ℕ
  cacheMisses : ℕ
  errors : ℕ
  deriving DecidableEq, Repr

/-- The row for a disk, as `proc_find_diskstat` starts it: `grub_snprintf` keeps a byte of the
buffer for the end of the string. -/
def ProcDiskstat.blank (name : Name) : ProcDiskstat where
  name := name.take (ROVER_PROC_NAME_MAX - 1)
  reads := 0
  bytes := 0
  cacheHits := 0
  cacheMisses := 0
  errors := 0

/-- `proc_find_diskstat`: the index of the row, and the table that has it. -/
def procFindDiskstat (name : Name) (stats : List ProcDiskstat) : Option (ℕ × List ProcDiskstat) :=
  Tally.place ProcDiskstat.name ROVER_PROC_STATS_MAX ProcDiskstat.blank name stats

/-- A `grub_err_t`, with the codes that are told apart. -/
inductive ProcErr
  | none | readError | fileReadError | io | other (code : ℕ)
  deriving DecidableEq, Repr

/-- `GRUB_ERR_READ_ERROR`, `GRUB_ERR_FILE_READ_ERROR` or `GRUB_ERR_IO`. -/
def ProcErr.isRead (error : ProcErr) : Bool :=
  error = .readError || error = .fileReadError || error = .io

/-- What a call reports of a disk. -/
inductive DiskEvent
  | read (bytes : ℕ) (error : ProcErr)
  | cache (hit : Bool)
  deriving DecidableEq, Repr

/-- The counters that `grub_procfs_record_disk_read` and `grub_procfs_record_cache` change. -/
def ProcDiskstat.count (event : DiskEvent) (stat : ProcDiskstat) : ProcDiskstat :=
  match event with
  | .read bytes error =>
    { stat with
      reads := u64 (stat.reads + 1)
      bytes := if error = .none then u64 (stat.bytes + bytes) else stat.bytes
      errors := if error.isRead then u64 (stat.errors + 1) else stat.errors }
  | .cache hit =>
    if hit then { stat with cacheHits := u64 (stat.cacheHits + 1) }
    else { stat with cacheMisses := u64 (stat.cacheMisses + 1) }

/-- `grub_disk_t`: its name, and whether the device is the one of the `proc` file system. -/
structure ProcDisk where
  name : Name
  procfs : Bool
  deriving DecidableEq, Repr

/-- `proc_enabled`, `proc_observing` and `diskstats`. -/
structure ProcState where
  enabled : Bool
  observing : ℕ
  diskstats : List ProcDiskstat

/-- After `rover_procfs_init`. -/
def ProcState.init : ProcState := ⟨true, 0, []⟩

/-- The events of this disk are not counted. -/
def ProcState.skips (s : ProcState) (disk : ProcDisk) : Bool :=
  !s.enabled || s.observing != 0 || disk.procfs

/-- `grub_procfs_record_disk_read`. -/
def grubProcfsRecordDiskRead (disk : ProcDisk) (bytes : ℕ) (error : ProcErr) (s : ProcState) :
    ProcState :=
  if s.skips disk then s
  else
    match procFindDiskstat disk.name s.diskstats with
    | none => s
    | some (i, stats) =>
      { s with diskstats := stats.modify i (ProcDiskstat.count (.read bytes error)) }

/-- `grub_procfs_record_cache`. -/
def grubProcfsRecordCache (disk : ProcDisk) (hit : Bool) (s : ProcState) : ProcState :=
  if s.skips disk then s
  else
    match procFindDiskstat disk.name s.diskstats with
    | none => s
    | some (i, stats) => { s with diskstats := stats.modify i (ProcDiskstat.count (.cache hit)) }

/-- What happens to the statistics: the two calls, and the start and the end of a listing of the
devices, during which `proc_observing` is raised. -/
inductive ProcCall
  | diskRead (disk : ProcDisk) (bytes : ℕ) (error : ProcErr)
  | cache (disk : ProcDisk) (hit : Bool)
  | observe
  | observed
  deriving DecidableEq, Repr

def procStep (s : ProcState) : ProcCall → Unit × ProcState
  | .diskRead disk bytes error => ((), grubProcfsRecordDiskRead disk bytes error s)
  | .cache disk hit => ((), grubProcfsRecordCache disk hit s)
  | .observe => ((), { s with observing := s.observing + 1 })
  | .observed => ((), { s with observing := s.observing - 1 })

/-! ### What is counted -/

/-- The disk and the event that a call reports. -/
def ProcCall.report : ProcCall → Option (ProcDisk × DiskEvent)
  | .diskRead disk bytes error => some (disk, .read bytes error)
  | .cache disk hit => some (disk, .cache hit)
  | .observe => none
  | .observed => none

/-- The event that a call has counted, with the name of the disk. -/
def procEvent (s : ProcState) (call : ProcCall) : Option (Name × DiskEvent) :=
  call.report.bind fun (disk, event) => if s.skips disk then none else some (disk.name, event)

/-- The events that the calls have counted. -/
def procRecorded (s : ProcState) : List ProcCall → List (Name × DiskEvent)
  | [] => []
  | call :: calls => (procEvent s call).toList ++ procRecorded (procStep s call).2 calls

/-- The bytes of a read that did not fail. -/
def DiskEvent.bytes : DiskEvent → ℕ
  | .read bytes error => if error = .none then bytes else 0
  | .cache _ => 0

def DiskEvent.isRead : DiskEvent → Bool
  | .read _ _ => true
  | .cache _ => false

def DiskEvent.isError : DiskEvent → Bool
  | .read _ error => error.isRead
  | .cache _ => false

/-- The row that a disk with these events should have. -/
def diskTotals (name : Name) (events : List DiskEvent) : ProcDiskstat where
  name := name
  reads := events.countP DiskEvent.isRead
  bytes := (events.map DiskEvent.bytes).sum
  cacheHits := events.count (.cache true)
  cacheMisses := events.count (.cache false)
  errors := events.countP DiskEvent.isError

/-- The counters that the event changes do not wrap around. -/
def ProcDiskstat.HasRoom (stat : ProcDiskstat) : DiskEvent → Prop
  | .read bytes error => stat.reads + 1 < 2 ^ 64
    ∧ (error = .none → stat.bytes + bytes < 2 ^ 64) ∧ (error.isRead → stat.errors + 1 < 2 ^ 64)
  | .cache true => stat.cacheHits + 1 < 2 ^ 64
  | .cache false => stat.cacheMisses + 1 < 2 ^ 64

instance (stat : ProcDiskstat) : (event : DiskEvent) → Decidable (stat.HasRoom event)
  | .read _ _ => inferInstanceAs (Decidable (_ ∧ _ ∧ _))
  | .cache true => inferInstanceAs (Decidable (_ < _))
  | .cache false => inferInstanceAs (Decidable (_ < _))

/-- The event that the call has counted, if any, is of a disk whose name fits in a row, and the row
with this name, or a blank one, has room for it. -/
def ProcFits (s : ProcState) (call : ProcCall) : Prop :=
  ∀ e ∈ procEvent s call, e.1.length < ROVER_PROC_NAME_MAX
    ∧ ((s.diskstats.find? fun stat => stat.name = e.1).getD (.blank e.1)).HasRoom e.2

instance (s : ProcState) (call : ProcCall) : Decidable (ProcFits s call) :=
  inferInstanceAs (Decidable (∀ e ∈ procEvent s call, _))

/-- The table has one row for each disk that an event was counted for, which holds its totals. -/
abbrev DiskstatsExact (events : List (Name × DiskEvent)) (stats : List ProcDiskstat) : Prop :=
  Tally.Exact ProcDiskstat.name diskTotals events stats

/-! ### The table is exact -/

theorem blank_eq_diskTotals {name : Name} (h : name.length < ROVER_PROC_NAME_MAX) :
    ProcDiskstat.blank name = diskTotals name [] := by
  have htake : name.take (ROVER_PROC_NAME_MAX - 1) = name := List.take_of_length_le (by omega)
  rw [ProcDiskstat.blank, htake]
  rfl

theorem count_diskTotals {name : Name} {events : List DiskEvent} {event : DiskEvent}
    (h : (diskTotals name events).HasRoom event) :
    (diskTotals name events).count event = diskTotals name (events ++ [event]) := by
  cases event with
  | read bytes error =>
    obtain ⟨hreads, hbytes, herrors⟩ := h
    have hbytes' : (if error = .none then u64 ((diskTotals name events).bytes + bytes)
        else (diskTotals name events).bytes) = (diskTotals name events).bytes
          + (DiskEvent.read bytes error).bytes := by
      rw [DiskEvent.bytes]
      by_cases hok : error = .none
      · rw [if_pos hok, if_pos hok, u64_of_lt (hbytes hok)]
      · rw [if_neg hok, if_neg hok, Nat.add_zero]
    have herrors' : (if error.isRead = true then u64 ((diskTotals name events).errors + 1)
        else (diskTotals name events).errors) = (diskTotals name events).errors
          + if error.isRead = true then 1 else 0 := by
      by_cases hbad : error.isRead = true
      · rw [if_pos hbad, if_pos hbad, u64_of_lt (herrors hbad)]
      · rw [if_neg hbad, if_neg hbad, Nat.add_zero]
    rw [ProcDiskstat.count, hbytes', herrors', u64_of_lt hreads]
    simp [diskTotals, DiskEvent.isRead, DiskEvent.isError, List.countP_append,
      List.countP_singleton]
    rfl
  | cache hit =>
    cases hit with
    | true =>
      rw [ProcDiskstat.count, if_pos rfl, u64_of_lt h]
      simp [diskTotals, DiskEvent.isRead, DiskEvent.isError, DiskEvent.bytes]
    | false =>
      rw [ProcDiskstat.count, if_neg Bool.false_ne_true, u64_of_lt h]
      simp [diskTotals, DiskEvent.isRead, DiskEvent.isError, DiskEvent.bytes]

/-- A row that is in an exact table, or would be in it, holds the totals of its label. -/
theorem DiskstatsExact.find_getD {events : List (Name × DiskEvent)} {stats : List ProcDiskstat}
    (h : DiskstatsExact events stats) {name : Name} (hname : name.length < ROVER_PROC_NAME_MAX) :
    (stats.find? fun stat => stat.name = name).getD (.blank name)
      = diskTotals name (Tally.eventsOf name events) := by
  cases hfind : stats.find? fun stat => stat.name = name with
  | some stat =>
    have hstat : stat.name = name := by simpa using List.find?_some hfind
    rw [Option.getD_some, h.totals stat (List.mem_of_find?_eq_some hfind), hstat]
  | none =>
    have hnew : name ∉ stats.map ProcDiskstat.name := by
      intro hmem
      obtain ⟨stat, hstat, hk⟩ := List.mem_map.mp hmem
      simpa [hk] using List.find?_eq_none.mp hfind stat hstat
    rw [Option.getD_none, blank_eq_diskTotals hname,
      Tally.eventsOf_eq_nil fun hk => hnew ((h.mem_iff name).mpr hk)]

/-- A call that reports nothing, or whose disk is skipped, leaves the table as it is. -/
theorem procStep_of_none {s : ProcState} {call : ProcCall} (h : procEvent s call = none) :
    (procStep s call).2.diskstats = s.diskstats := by
  cases call with
  | diskRead disk bytes error =>
    have hskips : s.skips disk = true := by simpa [procEvent, ProcCall.report] using h
    rw [procStep, grubProcfsRecordDiskRead, if_pos hskips]
  | cache disk hit =>
    have hskips : s.skips disk = true := by simpa [procEvent, ProcCall.report] using h
    rw [procStep, grubProcfsRecordCache, if_pos hskips]
  | observe => rfl
  | observed => rfl

/-- A call that has an event counted enters it in the row of its disk. -/
theorem procStep_of_some {s : ProcState} {call : ProcCall} {name : Name} {event : DiskEvent}
    (h : procEvent s call = some (name, event)) :
    (procStep s call).2.diskstats = Tally.record ProcDiskstat.name ROVER_PROC_STATS_MAX
      ProcDiskstat.blank (ProcDiskstat.count event) name s.diskstats := by
  cases call with
  | diskRead disk bytes error =>
    simp only [procEvent, ProcCall.report, Option.bind_some] at h
    split_ifs at h with hskips
    obtain ⟨rfl, rfl⟩ := Prod.mk.inj (Option.some.inj h)
    simp only [procStep, grubProcfsRecordDiskRead, if_neg hskips, Tally.record, procFindDiskstat]
    split <;> rename_i hplace <;> rw [hplace]
  | cache disk hit =>
    simp only [procEvent, ProcCall.report, Option.bind_some] at h
    split_ifs at h with hskips
    obtain ⟨rfl, rfl⟩ := Prod.mk.inj (Option.some.inj h)
    simp only [procStep, grubProcfsRecordCache, if_neg hskips, Tally.record, procFindDiskstat]
    split <;> rename_i hplace <;> rw [hplace]
  | observe => cases h
  | observed => cases h

theorem DiskstatsExact.step {s : ProcState} {events : List (Name × DiskEvent)}
    (h : DiskstatsExact events s.diskstats) {call : ProcCall} (hfits : ProcFits s call)
    (hnames : ((events ++ (procEvent s call).toList).map Prod.fst).dedup.length
      ≤ ROVER_PROC_STATS_MAX) :
    DiskstatsExact (events ++ (procEvent s call).toList) (procStep s call).2.diskstats := by
  cases hevent : procEvent s call with
  | none =>
    rw [procStep_of_none hevent, Option.toList_none, List.append_nil]
    exact h
  | some e =>
    obtain ⟨name, event⟩ := e
    obtain ⟨hlength, hroom⟩ := hfits (name, event) hevent
    rw [h.find_getD hlength] at hroom
    rw [hevent] at hnames
    rw [procStep_of_some hevent]
    exact h.record (blank_eq_diskTotals hlength) (fun _ => rfl) (count_diskTotals hroom) hnames

theorem DiskstatsExact.run {calls : List ProcCall} : ∀ {s : ProcState}
    {events : List (Name × DiskEvent)}, DiskstatsExact events s.diskstats →
    History.AllMeet procStep ProcFits s calls →
    ((events ++ procRecorded s calls).map Prod.fst).dedup.length ≤ ROVER_PROC_STATS_MAX →
    DiskstatsExact (events ++ procRecorded s calls)
      (History.after procStep s calls).diskstats := by
  induction calls with
  | nil =>
    intro s events h _ _
    rw [procRecorded, List.append_nil]
    exact h
  | cons call calls ih =>
    intro s events h hcalls hnames
    rw [procRecorded, ← List.append_assoc] at hnames ⊢
    have hfirst := Tally.length_dedup_le (List.map_subset Prod.fst (List.subset_append_left
      (events ++ (procEvent s call).toList) (procRecorded (procStep s call).2 calls)))
    exact ih (h.step hcalls.1 (Nat.le_trans hfirst hnames)) hcalls.2 hnames

/-- If no name that is counted is longer than its copy in a row, and no counter wraps around, then
the table has one row for each of at most 256 disks, and the row holds the totals of its disk. -/
theorem diskstats_exact {calls : List ProcCall}
    (hcalls : History.AllMeet procStep ProcFits .init calls)
    (hnames : ((procRecorded .init calls).map Prod.fst).dedup.length ≤ ROVER_PROC_STATS_MAX) :
    DiskstatsExact (procRecorded .init calls) (History.after procStep .init calls).diskstats :=
  DiskstatsExact.run Tally.exact_nil hcalls hnames

/-- `hd0`, `hd1` and a name of 128 bytes. -/
def shortDisk : ProcDisk := ⟨[0x68, 0x64, 0x30], false⟩
def otherDisk : ProcDisk := ⟨[0x68, 0x64, 0x31], false⟩
def longDisk : ProcDisk := ⟨List.replicate 128 0x61, false⟩

/-- Reads and lookups of two disks, with a listing in between. -/
def shortCalls : List ProcCall :=
  [.diskRead shortDisk 512 .none, .cache otherDisk false, .observe, .cache otherDisk true,
    .observed, .diskRead shortDisk 512 .io]

theorem diskstats_exact_short :
    DiskstatsExact (procRecorded .init shortCalls)
      (History.after procStep .init shortCalls).diskstats := by
  have hcalls : History.AllMeet procStep ProcFits .init shortCalls :=
    ⟨by decide, by decide, by decide, by decide, by decide, by decide, trivial⟩
  exact diskstats_exact hcalls (by decide)

/-- Two reads of a disk whose name has 128 bytes get a row each, both with the cut name. -/
theorem diskstats_long_name :
    ((procRecorded .init [.diskRead longDisk 512 .none, .diskRead longDisk 512 .none]).map
        Prod.fst).dedup.length ≤ ROVER_PROC_STATS_MAX
      ∧ ¬ DiskstatsExact
        (procRecorded .init [.diskRead longDisk 512 .none, .diskRead longDisk 512 .none])
        (History.after procStep .init
          [.diskRead longDisk 512 .none, .diskRead longDisk 512 .none]).diskstats := by
  refine ⟨by decide, fun h => ?_⟩
  have hnodup := h.nodup
  revert hnodup
  decide

end FsRover
