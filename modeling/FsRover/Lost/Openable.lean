import FsRover.Lost.Candidates
import FsRover.Lost.Disk
import FsRover.Lost.Hits

/-!
# Opening the results

A result is opened as a window of the scanned disk. Its range lies on the device and its remaps
inside the range whatever was found; whether the range consists of whole sectors depends on where
the search looked. The quick search looks at sectors only. The deep search goes on at the end of a
readable partition, which lies on a 512-byte sector and need not lie on a logical one.

## Main definitions

* `FsRover.LostHitFits`, `FsRover.RoverLostPart.Fits` : what every hit and every result has, and
  that it lies on a sector if the places examined do.
* `FsRover.LostSectorsAligned` : the deep search examined sectors only.

## Main results

* `FsRover.lostPart_fits` : a hit that fits gives a result that fits.
* `FsRover.LostReach.fits` : every result fits.
* `FsRover.lostScan_openable` : every result of a search that examined sectors only opens.
-/

namespace FsRover

variable {env : LostSearch} {aligned : Prop}

/-- A hit with a size that fits and at most two remaps that are not empty; it starts on a sector if
`aligned` holds. -/
structure LostHitFits (env : LostSearch) (aligned : Prop) (h : LostHit) : Prop where
  size : h.size < 2 ^ 64
  start : aligned → h.start % env.sectorSize = 0
  count : h.remap.length ≤ ROVER_LOST_REMAP_MAX
  length : ∀ r ∈ h.remap, r.length ≠ 0

/-- A result that starts on the device and is not empty, with a window of whole sectors on the
device and remaps inside the window; it starts on a sector if `aligned` holds. -/
structure RoverLostPart.Fits (env : LostSearch) (aligned : Prop) (p : RoverLostPart) : Prop where
  size_pos : 0 < p.size
  size_lt : p.size < 2 ^ 64
  offset_lt : p.offset < env.size
  offset_mod : aligned → p.offset % env.sectorSize = 0
  window_mod : p.window % env.sectorSize = 0
  inside : p.offset + p.window ≤ env.size
  count : p.remap.length ≤ ROVER_LOST_REMAP_MAX
  remaps : ∀ r ∈ p.remap, r.Inside p.window

theorem LostHitOk.fits {h : LostHit} (hh : LostHitOk env aligned h) : LostHitFits env aligned h :=
  ⟨hh.size, hh.start, hh.count, hh.length⟩

theorem LostHitFits.effective {h : LostHit} (hh : LostHitFits env aligned h) :
    LostHitFits env aligned (lostEffectiveHit env h) := by
  unfold lostEffectiveHit
  split_ifs
  · exact ⟨hh.size, hh.start, Nat.zero_le _, fun _ hr => absurd hr List.not_mem_nil⟩
  · exact hh

theorem lostWindow_le {hit : LostHit} (hsize : hit.size < 2 ^ 64) (hstart : hit.start < env.size) :
    hit.start + lostWindow env hit (hit.endAt < hit.start || env.size < hit.endAt) ≤ env.size := by
  have hlt := env.size_lt
  unfold lostWindow LostHit.endAt
  dsimp only
  split_ifs with htruncated
  · exact (Nat.add_le_add_left (Nat.sub_le _ _) _).trans (by omega)
  · refine (Nat.add_le_add_left (Nat.sub_le _ _) _).trans ?_
    simp only [Bool.or_eq_true, decide_eq_true_eq, not_or, not_lt] at htruncated
    unfold u64 at htruncated
    omega

theorem lostWindow_mod (hit : LostHit) (truncated : Bool) :
    lostWindow env hit truncated % env.sectorSize = 0 := by
  unfold lostWindow
  dsimp only
  generalize (if truncated = true then env.size - hit.start else hit.size) = window
  exact Nat.mod_eq_zero_of_dvd (Nat.dvd_sub_mod window)

/-- A hit that fits gives a result that fits. -/
theorem lostPart_fits (s : LostScan) {hit : LostHit} (hhit : LostHitFits env aligned hit)
    (hpos : 0 < hit.size) (hstart : hit.start < env.size) :
    (lostPart env s hit hit.endAt).Fits env aligned := by
  refine ⟨hpos, hhit.size, hstart, hhit.start, lostWindow_mod _ _, lostWindow_le hhit.size hstart,
    (List.length_filter_le _ _).trans hhit.count, fun r hr => ?_⟩
  obtain ⟨hmem, hinside⟩ := List.mem_filter.mp hr
  simp only [Bool.and_eq_true, decide_eq_true_eq] at hinside
  exact ⟨hhit.length r hmem, hinside.1.1, hinside.1.2, hinside.2⟩

/-! ### Adding the window -/

/-- The scanned disk as `grub_disk_open` returns it. -/
def LostSearch.disk (env : LostSearch) : GrubDisk := ⟨env.logSectorSize, some env.sectors⟩

theorem RoverLostPart.Fits.serves {p : RoverLostPart} (hp : p.Fits env True)
    (hwindow : p.window ≠ 0) : env.disk.Serves p.offset p.window := by
  refine ⟨hwindow, hp.offset_mod trivial, hp.window_mod, fun total htotal => ?_⟩
  obtain rfl : env.sectors = total := Option.some.inj htotal
  have hinside : p.offset + p.window ≤ env.sectors * 512 := hp.inside.trans (u64_le _)
  omega

/-- `rover_lost_add_ex` accepts a result on a sector, under any name that is free. -/
theorem RoverLostPart.Fits.add {p : RoverLostPart} (hp : p.Fits env True) (hwindow : p.window ≠ 0)
    {diskOpen : String → Except GrubError GrubDisk} {list : LostdiskList} {devname parent : String}
    (hopen : diskOpen parent = .ok env.disk) (hprobe : devname ≠ LOSTDISK_PROBE_NAME)
    (hfree : lostdiskFind list devname = none) :
    ∃ list', roverLostAddEx diskOpen list devname parent p.offset p.window p.remap = .ok list' :=
  ⟨_, roverLostAddEx_eq_ok_iff.mpr ⟨⟨hprobe, hfree⟩,
    lostdiskCheckRemap_eq_ok_iff.mpr ⟨hp.count, hp.remaps⟩, _, hopen, hp.serves hwindow, rfl⟩⟩

/-! ### The hits of a search on sectors -/

/-- The deep search examined whole sectors only. -/
def LostSectorsAligned (env : LostSearch) (trace : List LostEvent) : Prop :=
  ∀ x buf, LostEvent.sector x buf ∈ trace → x % env.sectorSize = 0

theorem LostSectorsAligned.suffix {old new : List LostEvent} (h : LostSectorsAligned env new)
    (hsuffix : old <:+ new) : LostSectorsAligned env old :=
  fun x buf hmem => h x buf (hsuffix.subset hmem)

/-- What a sector of a chunk keeps fits, if every sector examined and every candidate lies on a
sector. -/
theorem lostDeepSector_fits {deep : Buf} {base x : ℕ} {inRange positional : Bool} {s : LostScan}
    (hcandidate : positional = true → x % env.sectorSize = 0)
    (haligned : aligned → LostSectorsAligned env
      (lostDeepSector env deep base x inRange positional s).trace)
    (hs : ∀ h ∈ s.pending, LostHitFits env aligned h) :
    ∀ h ∈ (lostDeepSector env deep base x inRange positional s).pending,
      LostHitFits env aligned h := by
  intro h hh
  unfold lostDeepSector at haligned hh
  dsimp only at haligned hh
  set noted : LostScan := if (positional && lostTailLen env ≤ x) = true
    then { s with trace := .tail x (deep.from (LOST_TAIL + (x - base) - lostTailLen env)) ::
      s.trace } else s with hnoted
  have hpending : noted.pending = s.pending := by
    rw [hnoted]
    split_ifs <;> rfl
  have hends : h ∈ (if (positional && lostTailLen env ≤ x) = true
      then lostExamineEnd env x (deep.from (LOST_TAIL + (x - base) - lostTailLen env)) else []) →
      LostHitFits env aligned h := by
    intro hh
    split_ifs at hh with hpos
    · simp only [Bool.and_eq_true] at hpos
      exact (lostExamineEnd_ok (fun _ => hcandidate hpos.1) h hh).fits
    · cases hh
  by_cases hexam : (!inRange && x < env.size) = true
  · rw [if_pos hexam] at hh haligned
    have hframe := (@lostExamine_acts env (fun _ => False) (fun _ _ => True)
      { noted with trace := .sector x (deep.from (LOST_TAIL + (x - base))) :: noted.trace } x
      (deep.from (LOST_TAIL + (x - base))) (min (env.size - x) LOST_WINDOW) positional
      fun _ _ _ => trivial).frame
    have hmod : aligned → x % env.sectorSize = 0 := fun ha =>
      haligned ha x _ (hframe.trace_suffix.subset List.mem_cons_self)
    rcases mem_foldl_lostPend hh with hh | hh
    · exact hs h (hpending ▸ hframe.pending_eq ▸ hh)
    rcases List.mem_append.mp hh with hh | hh
    · exact hends hh
    · rw [lostExamine_hits] at hh
      exact ((lostDetect_ok hmod _ _).hits h hh).fits
  · rw [if_neg hexam, List.append_nil] at hh
    rcases mem_foldl_lostPend hh with hh | hh
    · exact hs h (hpending ▸ hh)
    · exact hends hh

theorem lostDeepSectors_fits {deep : Buf} {base : ℕ} {inRange : Bool} {x candidate : ℕ}
    {s : LostScan} {n : ℕ} (hhints : LostHints env s.hints)
    (hcandidate : candidate ≤ env.size → candidate % env.sectorSize = 0)
    (hx : ∀ k < n, x + k * env.sectorSize ≤ env.size)
    (haligned : aligned → LostSectorsAligned env
      (lostDeepSectors env deep base inRange x candidate s n).trace)
    (hs : ∀ h ∈ s.pending, LostHitFits env aligned h) :
    ∀ h ∈ (lostDeepSectors env deep base inRange x candidate s n).pending,
      LostHitFits env aligned h := by
  induction n generalizing x candidate s with
  | zero => exact hs
  | succ n ih =>
    unfold lostDeepSectors at haligned ⊢
    dsimp only at haligned ⊢
    set next := if candidate < x then lostNext env s.hints x else candidate with hnext
    have hnextMod : next ≤ env.size → next % env.sectorSize = 0 := by
      rw [hnext]
      split_ifs
      · exact lostNext_mod hhints
      · exact hcandidate
    have hsector := @lostDeepSector_acts env (fun _ => True) deep base x inRange (next == x) s
      fun _ _ => trivial
    have hrest := @lostDeepSectors_acts env (fun _ => True) deep base inRange
      (x + env.sectorSize) next (lostDeepSector env deep base x inRange (next == x) s) n
      fun _ _ _ => trivial
    refine ih (hsector.hints hhints) hnextMod (fun k hk => ?_) haligned
      (lostDeepSector_fits (fun hpos => ?_) (fun ha => (haligned ha).suffix hrest.grows.trace) hs)
    · have hlast := hx (k + 1) (by omega)
      rw [Nat.add_mul, Nat.one_mul] at hlast
      omega
    · have hzero := hx 0 (Nat.succ_pos n)
      rw [beq_iff_eq] at hpos
      exact hpos ▸ hnextMod (by omega)

theorem lostDeepChunk_fits {s : LostScan} (hhints : LostHints env s.hints)
    (haligned : aligned → LostSectorsAligned env (lostDeepChunk env s).trace)
    (hs : ∀ h ∈ s.pending, LostHitFits env aligned h) :
    ∀ h ∈ (lostDeepChunk env s).pending, LostHitFits env aligned h := by
  have hrun : ∀ inRange,
      (aligned → LostSectorsAligned env (lostDeepChunk.lostDeepRun env s s.pos inRange).trace) →
      ∀ h ∈ (lostDeepChunk.lostDeepRun env s s.pos inRange).pending, LostHitFits env aligned h := by
    intro inRange haligned
    refine lostDeepSectors_fits hhints (lostNext_mod hhints) (fun k hk => ?_) haligned hs
    have hend := @lostDeepEnd_le env s.pos inRange
    have hlt := lostDeepSector_lt hk
    omega
  unfold lostDeepChunk at haligned ⊢
  dsimp only at haligned ⊢
  cases hr : lostRangeAt env s.pos true with
  | none =>
    rw [hr] at haligned
    exact hrun false haligned
  | some r =>
    rw [hr] at haligned
    dsimp only at haligned ⊢
    split_ifs at haligned ⊢
    · exact hs
    · exact hrun true haligned

/-! ### Searches -/

variable (env aligned) in
/-- Table entries fit, and so does every result. -/
structure LostResultsFit (s : LostScan) : Prop where
  tables : ∀ t ∈ s.tables, t.size < 2 ^ 64 ∧ t.start % env.sectorSize = 0
  reports : ∀ p ∈ s.reports, p.Fits env aligned

variable (env aligned) in
/-- The hits kept fit as well. -/
structure LostFits (s : LostScan) : Prop extends LostResultsFit env aligned s where
  pending : ∀ h ∈ s.pending, LostHitFits env aligned h

variable {hitOk : LostHit → Prop} {entryOk : ℕ → ℕ → Prop}

theorem LostAct.resultsFit {s s' : LostScan} (h : LostAct env hitOk entryOk s s')
    (hhits : ∀ h, hitOk h → LostHitFits env aligned h) (hentries : ∀ a b, entryOk a b → b < 2 ^ 64)
    (hs : LostResultsFit env aligned s) : LostResultsFit env aligned s' := by
  cases h with
  | hint => exact ⟨hs.tables, hs.reports⟩
  | jump => exact ⟨hs.tables, hs.reports⟩
  | table start size hentry _ hmod =>
    refine ⟨fun t ht => ?_, hs.reports⟩
    rcases List.mem_append.mp ht with ht | ht
    · exact hs.tables t ht
    · rw [List.mem_singleton.mp ht]
      exact ⟨hentries _ _ hentry, hmod⟩
  | record hit hhit hig =>
    refine ⟨fun t ht => ?_, fun p hp => ?_⟩
    · obtain ⟨t₀, ht₀, rfl⟩ := List.mem_map.mp ht
      have ht₀ := hs.tables t₀ ht₀
      split_ifs <;> exact ht₀
    · rcases List.mem_append.mp hp with hp | hp
      · exact hs.reports p hp
      · rw [List.mem_singleton.mp hp]
        unfold lostIgnores at hig
        simp only [Bool.or_eq_false_iff, decide_eq_false_iff_not, not_le] at hig
        refine lostPart_fits s (hhits hit hhit).effective ?_ ?_
        · rw [lostEffectiveHit_size]
          exact Nat.pos_of_ne_zero hig.1.1
        · rw [lostEffectiveHit_start]
          exact hig.1.2

theorem LostActs.fits {s s' : LostScan} (h : LostActs env hitOk entryOk s s')
    (hhits : ∀ h, hitOk h → LostHitFits env aligned h) (hentries : ∀ a b, entryOk a b → b < 2 ^ 64)
    (hs : LostFits env aligned s) : LostFits env aligned s' := by
  have hresults : LostResultsFit env aligned s' := Runs.preserves (P := LostResultsFit env aligned)
    (fun _ _ hab => hab.resultsFit hhits hentries) h ⟨hs.tables, hs.reports⟩
  exact ⟨hresults, h.frame.pending_eq ▸ hs.pending⟩

/-- A chunk that examined sectors only keeps hits that fit. -/
theorem lostDeepChunk_allFit {s : LostScan} (hhints : LostHints env s.hints)
    (haligned : aligned → LostSectorsAligned env (lostDeepChunk env s).trace)
      (hs : LostFits env aligned s) :
    LostFits env aligned (lostDeepChunk env s) := by
  have hpending := lostDeepChunk_fits hhints haligned hs.pending
  obtain ⟨m, hacts, hm⟩ := @lostDeepChunk_acts env s
  have hresults : LostResultsFit env aligned m := by
    refine Runs.preserves (P := LostResultsFit env aligned) (fun a b hab ha => ?_) hacts
      ⟨hs.tables, hs.reports⟩
    cases hab with
    | act h => exact h.resultsFit (fun _ h => absurd h not_false) (fun _ _ h => h.size_lt) ha
    | _ => exact ⟨ha.tables, ha.reports⟩
  rw [hm] at hpending ⊢
  exact ⟨⟨hresults.tables, hresults.reports⟩, hpending⟩

theorem LostStep.fits {s s' : LostScan} (h : LostStep env s s') (hhints : LostHints env s.hints)
    (haligned : aligned → LostSectorsAligned env s'.trace) (hs : LostFits env aligned s) :
    LostFits env aligned s' := by
  have hnone : ∀ a b, (fun _ _ => False : ℕ → ℕ → Prop) a b → b < 2 ^ 64 :=
    fun _ _ h => absurd h not_false
  cases h with
  | clamp => exact ⟨⟨hs.tables, hs.reports⟩, hs.pending⟩
  | round h =>
    cases h with
    | visit c _ _ _ _ _ _ _ _ hmod _ _ hacts =>
      refine LostActs.fits hacts (fun h hh => ?_) (fun _ _ h => ?_)
        ⟨⟨hs.tables, hs.reports⟩, hs.pending⟩
      · exact (lostQuickHits_ok (fun _ => hmod) h hh).fits
      · exact h.size_lt (@lostQuickVerdict_ok _ True _ fun _ => hmod)
    | settle =>
      exact ⟨⟨hs.tables, hs.reports⟩, fun h hh => hs.pending h (mem_lostSettle hh)⟩
    | chunk => exact lostDeepChunk_allFit hhints haligned hs
    | pending hit _ _ _ hget hacts =>
      refine LostActs.fits hacts (fun h hh => ?_) hnone ⟨⟨hs.tables, hs.reports⟩, hs.pending⟩
      exact hh ▸ hs.pending hit (SortedSearch.mem_of_getElem? hget)
    | entry t _ _ _ _ hget _ hacts =>
      refine LostActs.fits hacts (fun h hh => ?_) hnone ⟨⟨hs.tables, hs.reports⟩, hs.pending⟩
      obtain ⟨hsize, hmod⟩ := hs.tables t (SortedSearch.mem_of_getElem? hget)
      rw [hh]
      exact ⟨hsize, fun _ => hmod, Nat.zero_le _, fun _ hr => absurd hr List.not_mem_nil⟩
    | _ => exact ⟨⟨hs.tables, hs.reports⟩, hs.pending⟩

theorem LostReach.fits {s : LostScan} (h : LostReach env s)
    (haligned : aligned → LostSectorsAligned env s.trace) : LostFits env aligned s := by
  induction h with
  | refl =>
    obtain ⟨m, hacts, hm⟩ := @roverLostScanBegin_acts env
    have hfits := @LostActs.fits _ aligned _ _ _ _ hacts (fun _ h => absurd h not_false)
      (fun _ _ h => h)
      ⟨⟨fun _ h => absurd h List.not_mem_nil, fun _ h => absurd h List.not_mem_nil⟩,
        fun _ h => absurd h List.not_mem_nil⟩
    rw [hm]
    exact ⟨⟨hfits.tables, hfits.reports⟩, hfits.pending⟩
  | tail hreach hab ih =>
    exact hab.fits (LostReach.hints hreach) haligned
      (ih fun ha => (haligned ha).suffix hab.grows.trace)

/-- In a search whose deep part examined sectors only, every result with a window passes the
argument checks of `rover_lost_add_ex` on the scanned disk. -/
theorem lostScan_openable {s : LostScan} (h : LostCalls env s)
    (haligned : LostSectorsAligned env s.trace) {p : RoverLostPart} (hp : p ∈ s.reports)
    (hwindow : p.window ≠ 0) {diskOpen : String → Except GrubError GrubDisk} {list : LostdiskList}
    {devname parent : String} (hopen : diskOpen parent = .ok env.disk)
    (hprobe : devname ≠ LOSTDISK_PROBE_NAME) (hfree : lostdiskFind list devname = none) :
    ∃ list', roverLostAddEx diskOpen list devname parent p.offset p.window p.remap = .ok list' :=
  ((@LostReach.fits _ True _ h.reach fun _ => haligned).reports p hp).add hwindow hopen hprobe hfree

/-- An F2FS of 16 KiB at the start of a disk of 32 KiB, searched sector by sector. -/
def lostF2fsDisk : LostSearch :=
  .ofImage 64 3 (.ofFields [(1024, [0x10, 0x20, 0xf5, 0xf2]), (1032, [9, 0, 0, 0, 3, 0, 0, 0, 12]),
    (1060, [4])]) [] true

/-- An event that examines no part of a sector. -/
def LostEvent.onSector (env : LostSearch) : LostEvent → Bool
  | .sector x _ => x % env.sectorSize == 0
  | _ => true

theorem LostSectorsAligned.of_onSector {trace : List LostEvent}
    (h : ∀ e ∈ trace, e.onSector env = true) : LostSectorsAligned env trace := by
  intro x buf hmem
  simpa [LostEvent.onSector] using h _ hmem

theorem lostF2fsDisk_openable : ∃ s, LostCalls lostF2fsDisk s ∧ ∃ p ∈ s.reports, p.window ≠ 0
    ∧ ∃ list', roverLostAddEx (fun _ => .ok lostF2fsDisk.disk) ⟨[], 0⟩ "lost0" "hd0" p.offset
      p.window p.remap = .ok list' := by
  have heval : (roverLostScanStep lostF2fsDisk 40 (fun _ => false)
      (roverLostScanBegin lostF2fsDisk) 0).map (fun r => (r.2.reports.map (·.window),
        r.2.trace.all (LostEvent.onSector lostF2fsDisk))) = some ([16384], true) := by
    decide
  obtain ⟨⟨ret, s⟩, hcall, hstate⟩ := Option.map_eq_some_iff.mp heval
  obtain ⟨hreports, haligned⟩ := Prod.mk.inj hstate
  obtain ⟨p, hp, hwindow⟩ := List.mem_map.mp (hreports ▸ List.mem_singleton_self 16384)
  have hne : p.window ≠ 0 := by omega
  have hcalls : LostCalls lostF2fsDisk s := .step .begin hcall
  exact ⟨s, hcalls, p, hp, hne, lostScan_openable hcalls
    (.of_onSector (List.all_eq_true.mp haligned)) hp hne rfl (by decide) rfl⟩

/-- The same F2FS behind a readable partition of 512 bytes, on a disk of 4 KiB sectors. -/
def lostHalfSectorDisk : LostSearch :=
  .ofImage 64 3 (.ofFields [(1536, [0x10, 0x20, 0xf5, 0xf2]), (1544, [9, 0, 0, 0, 3, 0, 0, 0, 12]),
    (1572, [4])]) [⟨0, 1, true⟩] true

/-- The deep search goes on at 512, where no sector begins, and reports what it finds there. -/
theorem lostHalfSectorDisk_not_openable :
    ¬ ∀ env : LostSearch, ∀ s, LostCalls env s → ∀ p ∈ s.reports, p.window ≠ 0 →
      ∀ (diskOpen : String → Except GrubError GrubDisk) (list : LostdiskList)
        (devname parent : String), diskOpen parent = .ok env.disk →
      devname ≠ LOSTDISK_PROBE_NAME → lostdiskFind list devname = none →
      ∃ list', roverLostAddEx diskOpen list devname parent p.offset p.window p.remap
        = .ok list' := by
  intro hclaim
  have heval : (roverLostScanStep lostHalfSectorDisk 40 (fun _ => false)
      (roverLostScanBegin lostHalfSectorDisk) 0).map
        (fun r => r.2.reports.map fun p => (p.offset, p.window)) = some [(512, 16384)] := by
    decide
  obtain ⟨⟨ret, s⟩, hcall, hreports⟩ := Option.map_eq_some_iff.mp heval
  obtain ⟨p, hp, hpeq⟩ := List.mem_map.mp (hreports ▸ List.mem_singleton_self (512, 16384))
  obtain ⟨hoffset, hwindow⟩ := Prod.mk.inj hpeq
  obtain ⟨list', hadd⟩ := hclaim _ s (.step .begin hcall) p hp (by omega)
    (fun _ => .ok lostHalfSectorDisk.disk) ⟨[], 0⟩ "lost0" "hd0" rfl (by decide) rfl
  obtain ⟨-, -, disk, hopen, hserves, -⟩ := roverLostAddEx_eq_ok_iff.mp hadd
  obtain rfl := Except.ok.inj hopen
  have hmod := hserves.offset_mod
  rw [hoffset] at hmod
  exact absurd hmod (by decide)

end FsRover
