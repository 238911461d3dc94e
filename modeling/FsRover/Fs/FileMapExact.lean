import FsRover.Fs.FileMapRun
import FsRover.Lib.Tiling

/-!
# What is said of where a file lies

## Main definitions

* `FsRover.FileMapExtent.SameAt` : two extents say the same of a byte.
* `FsRover.fileMapFirst` : the extent of the driver that a byte lies in.
* `FsRover.FileMapRun.Given`, `FsRover.FileMapRun.Sound` : what the hook was given, and what a run
  keeps that is not stopped.

## Main results

* `FsRover.FileMapRun.Sound.emit`, `FsRover.FileMapRun.Sound.drive` : one extent, and a driver.
* `FsRover.fileMapRange_exact` : the hook gets what the driver says, in a row.
-/

namespace FsRover

open Tiling

/-- Extents in a row, without gap or overlap. -/
def FileMapTiles : ℕ → List FileMapExtent → ℕ → Prop :=
  Tiles FileMapExtent.logicalOffset FileMapExtent.logicalLength

def FileMapExtent.Covers (e : FileMapExtent) (x : ℕ) : Prop :=
  e.logicalOffset ≤ x ∧ x < e.logicalOffset + e.logicalLength

instance FileMapExtent.decidableCovers (e : FileMapExtent) (x : ℕ) : Decidable (e.Covers x) :=
  inferInstanceAs (Decidable (_ ∧ _))

/-- An extent with a place on the volume for each byte. -/
def FileMapExtent.Placed (e : FileMapExtent) : Prop :=
  e.has GRUB_FILE_MAP_DIRECT = true
    ∨ (e.has GRUB_FILE_MAP_UNWRITTEN = true ∧ ¬e.has GRUB_FILE_MAP_TRANSFORMED = true)

/-- Two extents say the same of a byte: their flags, its place in the storage, and for what is
transformed its place behind the decoding. -/
structure FileMapExtent.SameAt (d e : FileMapExtent) (x : ℕ) : Prop where
  flags : e.flags = d.flags
  placed : d.Placed → ∃ s t, d.storage = [s] ∧ e.storage = [t] ∧ t.addressSpace = s.addressSpace
    ∧ t.offset + (x - e.logicalOffset) = s.offset + (x - d.logicalOffset)
  decoded : ¬d.Placed → d.has GRUB_FILE_MAP_TRANSFORMED = true →
    e.decodedOffset + (x - e.logicalOffset) = d.decodedOffset + (x - d.logicalOffset)
      ∧ e.decodedLength = d.decodedLength ∧ e.storage = d.storage

/-- The first extent of a driver that has a byte. -/
def fileMapFirst (ds : List FileMapExtent) (x : ℕ) : Option FileMapExtent :=
  ds.find? fun d => d.Covers x

section Extents

variable {d e e' : FileMapExtent} {ds ds' : List FileMapExtent} {x : ℕ}

theorem FileMapExtent.has_eq_of_flags (h : e.flags = d.flags) (flag : ℕ) :
    e.has flag = d.has flag := by
  rw [FileMapExtent.has, FileMapExtent.has, h]

theorem FileMapExtent.placed_iff_of_flags (h : e.flags = d.flags) : e.Placed ↔ d.Placed := by
  rw [FileMapExtent.Placed, FileMapExtent.Placed, FileMapExtent.has_eq_of_flags h,
    FileMapExtent.has_eq_of_flags h, FileMapExtent.has_eq_of_flags h]

theorem FileMapExtent.SameAt.trans (h : d.SameAt e x) (h' : d.SameAt e' x) : e.SameAt e' x := by
  refine ⟨h'.flags.trans h.flags.symm, fun hplaced => ?_, fun hplaced htransformed => ?_⟩
  · have hplaced := (FileMapExtent.placed_iff_of_flags h.flags).mp hplaced
    obtain ⟨s, t, hs, ht, hspace, hoff⟩ := h.placed hplaced
    obtain ⟨s', t', hs', ht', hspace', hoff'⟩ := h'.placed hplaced
    rw [hs] at hs'
    cases hs'
    exact ⟨t, t', ht, ht', hspace'.trans hspace.symm, hoff'.trans hoff.symm⟩
  · rw [FileMapExtent.placed_iff_of_flags h.flags] at hplaced
    rw [FileMapExtent.has_eq_of_flags h.flags] at htransformed
    obtain ⟨hoff, hlen, hstorage⟩ := h.decoded hplaced htransformed
    obtain ⟨hoff', hlen', hstorage'⟩ := h'.decoded hplaced htransformed
    exact ⟨hoff'.trans hoff.symm, hlen'.trans hlen.symm, hstorage'.trans hstorage.symm⟩

theorem fileMapFirst_append (h : fileMapFirst ds x = some d) :
    fileMapFirst (ds ++ ds') x = some d := by
  rw [fileMapFirst, List.find?_append]
  have hfirst : ds.find? (fun d => d.Covers x) = some d := h
  rw [hfirst]
  rfl

theorem fileMapFirst_concat (h : ∀ d' ∈ ds, ¬d'.Covers x) (hd : d.Covers x) :
    fileMapFirst (ds ++ [d]) x = some d := by
  have hnone : ds.find? (fun d => d.Covers x) = none :=
    List.find?_eq_none.mpr fun d' hin => by simpa using h d' hin
  rw [fileMapFirst, List.find?_append, hnone, Option.none_or, List.find?_cons,
    decide_eq_true hd]

end Extents

namespace FileMapRun

/-! ### What a run keeps -/

/-- What the hook was given: extents in a row, that say what the driver says. -/
structure Given (lo hi : ℕ) (ds : List FileMapExtent) (run : FileMapRun) : Prop where
  start : run.start = lo
  stop : run.stop = hi
  tiles : ∃ mid ≤ hi, FileMapTiles lo run.hooked mid
  same : ∀ e ∈ run.hooked, ∀ x, e.Covers x → ∃ d, fileMapFirst ds x = some d ∧ d.SameAt e x

/-- The pending extent is plain, and a direct one has the storage pending with it. -/
structure Holds (run : FileMapRun) (p : FileMapExtent) : Prop where
  plain : p.flags = GRUB_FILE_MAP_DIRECT ∨ p.flags = GRUB_FILE_MAP_ZERO + GRUB_FILE_MAP_HOLE
  stored : p.flags = GRUB_FILE_MAP_DIRECT → p.storage = [run.pendingStorage]
    ∧ run.pendingStorage.length = p.logicalLength
    ∧ run.pendingStorage.offset + run.pendingStorage.length < 2 ^ 64

/-- What a run keeps that is not stopped. -/
structure Live (lo hi : ℕ) (ds : List FileMapExtent) (run : FileMapRun) : Prop where
  tiles : FileMapTiles lo (run.hooked ++ run.pending.toList) run.next
  next_le : run.next ≤ hi
  holds : ∀ p, run.pending = some p → run.Holds p
  same : ∀ p, run.pending = some p → ∀ x, p.Covers x →
    ∃ d, fileMapFirst ds x = some d ∧ d.SameAt p x
  below : ∀ d ∈ ds, ∀ x, d.Covers x → lo ≤ x → x < hi → x < run.next
  apart : ds.Pairwise fun d d' => ∀ x, lo ≤ x → x < hi → d.Covers x → ¬d'.Covers x

structure Sound (lo hi : ℕ) (ds : List FileMapExtent) (run : FileMapRun) : Prop where
  given : run.Given lo hi ds
  live : run.stopped = false → run.Live lo hi ds

variable {cancels hook : ℕ → Bool} {unset : ℕ → FileMapStorage} {lo hi : ℕ}
  {ds ds' : List FileMapExtent} {run : FileMapRun} {d e c p : FileMapExtent}

theorem Given.append (h : run.Given lo hi ds) (ds' : List FileMapExtent) :
    run.Given lo hi (ds ++ ds') :=
  ⟨h.start, h.stop, h.tiles, fun e he x hx =>
    let ⟨d, hfirst, hsame⟩ := h.same e he x hx
    ⟨d, fileMapFirst_append hfirst, hsame⟩⟩

/-! ### What the operations do -/

theorem cancelled_eq : ∃ stopped polls, run.cancelled cancels = { run with stopped, polls }
    ∧ (run.stopped = true → stopped = true) := by
  rw [FileMapRun.cancelled]
  split_ifs with hstopped
  · exact ⟨run.stopped, run.polls, rfl, id⟩
  · exact ⟨_, _, rfl, fun h => absurd h hstopped⟩

/-- The hook gets the extent, unless the run is stopped or cancelled. -/
theorem give_eq : ∃ stopped polls hooked,
    run.give cancels hook e = { run with stopped, polls, hooked }
      ∧ ((stopped = true ∧ hooked = run.hooked)
        ∨ (run.stopped = false ∧ hooked = run.hooked ++ [e])) := by
  obtain ⟨stopped, polls, heq, hkeep⟩ := @cancelled_eq cancels run
  rw [FileMapRun.give, heq]
  cases stopped with
  | true => exact ⟨true, polls, run.hooked, rfl, .inl ⟨rfl, rfl⟩⟩
  | false =>
    refine ⟨hook run.hooked.length, polls, run.hooked ++ [e], rfl, .inr ⟨?_, rfl⟩⟩
    cases hstopped : run.stopped with
    | false => rfl
    | true => cases hkeep hstopped

theorem flush_pending : (run.flush cancels hook).pending = none := by
  rw [FileMapRun.flush]
  cases hp : run.pending with
  | none => exact hp
  | some p => rfl

theorem flush_next (n : ℕ) : ({ run with next := n } : FileMapRun).flush cancels hook
    = { run.flush cancels hook with next := n } := by
  obtain ⟨start, stop, next, disk, stopped, polls, pending, stored, hooked⟩ := run
  cases pending with
  | none => rfl
  | some p =>
    cases stopped with
    | true => rfl
    | false => cases hpoll : cancels polls <;> simp [FileMapRun.flush, give, cancelled, hpoll]

theorem flush_next_eq : (run.flush cancels hook).next = run.next := by
  rw [FileMapRun.flush]
  cases run.pending with
  | none => rfl
  | some p =>
    obtain ⟨stopped, polls, hooked, heq, -⟩ := @give_eq cancels hook run p
    dsimp only
    rw [heq]

theorem flush_stopped (h : run.stopped = true) : (run.flush cancels hook).stopped = true := by
  rw [FileMapRun.flush]
  cases run.pending with
  | none => exact h
  | some p =>
    obtain ⟨stopped, polls, hooked, heq, hgiven⟩ := @give_eq cancels hook run p
    dsimp only
    rw [heq]
    rcases hgiven with ⟨rfl, -⟩ | ⟨hlive, -⟩
    · rfl
    · rw [h] at hlive
      cases hlive

/-! ### Steps -/

theorem Sound.cancelled (h : run.Sound lo hi ds) (cancels : ℕ → Bool) :
    (run.cancelled cancels).Sound lo hi ds := by
  obtain ⟨stopped, polls, heq, hkeep⟩ := @cancelled_eq cancels run
  rw [heq]
  refine ⟨⟨h.given.start, h.given.stop, h.given.tiles, h.given.same⟩, fun hstopped => ?_⟩
  have hlive := h.live (Bool.eq_false_iff.mpr fun htrue =>
    absurd ((hkeep htrue).symm.trans hstopped) (by decide))
  exact ⟨hlive.tiles, hlive.next_le,
    fun p hp => ⟨(hlive.holds p hp).plain, (hlive.holds p hp).stored⟩, hlive.same, hlive.below, hlive.apart⟩

/-- An extent that has no byte of the query, or comes when the run is stopped. -/
theorem Sound.skip (h : run.Sound lo hi ds)
    {d : FileMapExtent} (hskip : run.stopped = true ∨ ∀ x, lo ≤ x → x < hi → ¬d.Covers x) :
    run.Sound lo hi (ds ++ [d]) := by
  refine ⟨h.given.append [d], fun hstopped => ?_⟩
  have hlive := h.live hstopped
  have hnone : ∀ x, lo ≤ x → x < hi → ¬d.Covers x := by
    rcases hskip with hstop | hnone
    · rw [hstopped] at hstop
      cases hstop
    · exact hnone
  refine ⟨hlive.tiles, hlive.next_le, hlive.holds, fun p hp x hx => ?_,
    fun d' hd' x hx hlo hhi => ?_, List.pairwise_append.mpr ⟨hlive.apart,
      List.pairwise_singleton _ _, fun d₁ _ d₂ hd₂ x hlo hhi _ => ?_⟩⟩
  · obtain ⟨d', hfirst, hsame⟩ := hlive.same p hp x hx
    exact ⟨d', fileMapFirst_append hfirst, hsame⟩
  · rcases List.mem_append.mp hd' with hd' | hd'
    · exact hlive.below d' hd' x hx hlo hhi
    · rw [List.mem_singleton.mp hd'] at hx
      exact absurd hx (hnone x hlo hhi)
  · rw [List.mem_singleton.mp hd₂]
    exact hnone x hlo hhi

theorem Sound.checkAll (h : run.Sound lo hi ds) (cancels : ℕ → Bool)
    (storage : List FileMapStorage) :
    (FileMapRun.checkAll cancels storage run).2.Sound lo hi ds := by
  induction storage generalizing run with
  | nil => exact h
  | cons s storage ih =>
    have hpoll := h.cancelled cancels
    rw [FileMapRun.checkAll]
    split_ifs
    · exact hpoll
    · exact hpoll
    · cases grubFileMapCheckStorage (run.cancelled cancels).disk s (s.offset + s.length) with
      | some err => exact hpoll
      | none => exact ih hpoll

theorem Sound.flush (h : run.Sound lo hi ds) : (run.flush cancels hook).Sound lo hi ds := by
  rw [FileMapRun.flush]
  cases hp : run.pending with
  | none => exact h
  | some p =>
    obtain ⟨stopped, polls, hooked, heq, hgiven⟩ := @give_eq cancels hook run p
    dsimp only
    rw [heq]
    rcases hgiven with ⟨rfl, rfl⟩ | ⟨hlive, rfl⟩
    · exact ⟨⟨h.given.start, h.given.stop, h.given.tiles, h.given.same⟩, (fun h => by cases h)⟩
    · have hlive := h.live hlive
      have htiles := hlive.tiles
      rw [hp, Option.toList_some] at htiles
      refine ⟨⟨h.given.start, h.given.stop, ⟨_, hlive.next_le, htiles⟩, fun e he x hx => ?_⟩,
        fun _ => ⟨by rw [Option.toList_none, List.append_nil]; exact htiles, hlive.next_le,
          (fun q hq => by cases hq), (fun q hq => by cases hq), hlive.below, hlive.apart⟩⟩
      rcases List.mem_append.mp he with he | he
      · exact h.given.same e he x hx
      · rw [List.mem_singleton.mp he] at hx ⊢
        exact hlive.same p hp x hx

/-! ### An extent that goes on where the run is -/

theorem placed_iff_of_plain
    (h : e.flags = GRUB_FILE_MAP_DIRECT ∨ e.flags = GRUB_FILE_MAP_ZERO + GRUB_FILE_MAP_HOLE) :
    (e.Placed ↔ e.flags = GRUB_FILE_MAP_DIRECT) ∧ ¬e.has GRUB_FILE_MAP_TRANSFORMED = true := by
  rw [FileMapExtent.Placed, FileMapExtent.has, FileMapExtent.has, FileMapExtent.has]
  rcases h with h | h <;> rw [h] <;> decide

/-- An extent clipped to the query goes on where the run is, and says what the one clipped says. -/
structure Fresh (lo hi : ℕ) (run : FileMapRun) (d e : FileMapExtent) : Prop where
  next : e.logicalOffset = run.next
  pos : 0 < e.logicalLength
  le : e.logicalOffset + e.logicalLength ≤ hi
  same : ∀ x, e.Covers x → d.SameAt e x
  edge : ∀ x, lo ≤ x → x < hi → (d.Covers x ↔ e.Covers x)
  whole : e.Placed → ∃ s, e.storage = [s] ∧ s.length = e.logicalLength
    ∧ s.offset + s.length < 2 ^ 64

theorem Live.first (h : run.Live lo hi ds) (hfresh : Fresh lo hi run d e) {x : ℕ} (hx : e.Covers x) :
    fileMapFirst (ds ++ [d]) x = some d := by
  have hlo := h.tiles.le
  have hnext := hfresh.next
  have hle := hfresh.le
  obtain ⟨hfirst, hlast⟩ := hx
  refine fileMapFirst_concat (fun d' hd' hx' => ?_) ((hfresh.edge x (by omega) (by omega)).mpr
    ⟨hfirst, hlast⟩)
  have hlt := h.below d' hd' x hx' (by omega) (by omega)
  omega

theorem Live.below_concat (h : run.Live lo hi ds) (hfresh : Fresh lo hi run d e) {d' : FileMapExtent}
    (hd' : d' ∈ ds ++ [d]) {x : ℕ} (hx : d'.Covers x) (hlo : lo ≤ x) (hhi : x < hi) :
    x < e.logicalOffset + e.logicalLength := by
  rcases List.mem_append.mp hd' with hd' | hd'
  · have hlt := h.below d' hd' x hx hlo hhi
    have hnext := hfresh.next
    omega
  · rw [List.mem_singleton.mp hd'] at hx
    exact ((hfresh.edge x hlo hhi).mp hx).2

theorem Live.apart_concat (h : run.Live lo hi ds) (hfresh : Fresh lo hi run d e) :
    (ds ++ [d]).Pairwise fun d d' => ∀ x, lo ≤ x → x < hi → d.Covers x → ¬d'.Covers x := by
  refine List.pairwise_append.mpr ⟨h.apart, List.pairwise_singleton _ _,
    fun d₁ hd₁ d₂ hd₂ x hlo hhi hx hx' => ?_⟩
  rw [List.mem_singleton.mp hd₂] at hx'
  have hlt := h.below d₁ hd₁ x hx hlo hhi
  have hge := ((hfresh.edge x hlo hhi).mp hx').1
  have hnext := hfresh.next
  omega

theorem Sound.give_fresh (h : run.Sound lo hi ds) (hp : run.pending = none)
    (hfresh : Fresh lo hi run d e) :
    (({ run with next := e.logicalOffset + e.logicalLength } : FileMapRun).give cancels hook
      e).Sound lo hi (ds ++ [d]) := by
  obtain ⟨stopped, polls, hooked, heq, hgiven⟩ := @give_eq cancels hook
    { run with next := e.logicalOffset + e.logicalLength } e
  rw [heq]
  have happend := h.given.append [d]
  rcases hgiven with ⟨rfl, rfl⟩ | ⟨hstopped, rfl⟩
  · exact ⟨⟨happend.start, happend.stop, happend.tiles, happend.same⟩, (fun h => by cases h)⟩
  · have hlive := h.live hstopped
    have htiles := hlive.tiles
    rw [hp, Option.toList_none, List.append_nil, ← hfresh.next] at htiles
    have htiles' := Tiles.append htiles rfl hfresh.pos
    refine ⟨⟨happend.start, happend.stop, ⟨_, hfresh.le, htiles'⟩, fun e' he x hx => ?_⟩, fun _ =>
      ⟨by dsimp only; rw [hp, Option.toList_none, List.append_nil]; exact htiles', hfresh.le,
        (fun q hq => by cases hp.symm.trans hq), (fun q hq => by cases hp.symm.trans hq),
        fun d' hd' x hx hlo hhi => hlive.below_concat hfresh hd' hx hlo hhi,
        hlive.apart_concat hfresh⟩⟩
    rcases List.mem_append.mp he with he | he
    · exact happend.same e' he x hx
    · rw [List.mem_singleton.mp he] at hx ⊢
      exact ⟨d, hlive.first hfresh hx, hfresh.same x hx⟩

theorem Sound.hold_fresh (h : run.Sound lo hi ds) (hp : run.pending = none)
    (hfresh : Fresh lo hi run d e)
    (hplain : e.flags = GRUB_FILE_MAP_DIRECT ∨ e.flags = GRUB_FILE_MAP_ZERO + GRUB_FILE_MAP_HOLE)
    {s : FileMapStorage} (hs : e.flags = GRUB_FILE_MAP_DIRECT → e.storage = [s]) :
    (({ run with next := e.logicalOffset + e.logicalLength } : FileMapRun).hold e s).Sound
      lo hi (ds ++ [d]) := by
  have happend := h.given.append [d]
  obtain ⟨hplaced, hnot⟩ := placed_iff_of_plain hplain
  have hheld : ∃ e' stored, e'.logicalOffset = e.logicalOffset ∧ e'.logicalLength = e.logicalLength
      ∧ e'.flags = e.flags ∧ (e.flags = GRUB_FILE_MAP_DIRECT → e'.storage = [s] ∧ stored = s)
      ∧ ({ run with next := e.logicalOffset + e.logicalLength } : FileMapRun).hold e s
        = { run with
            next := e.logicalOffset + e.logicalLength
            pending := some e'
            pendingStorage := stored } := by
    rw [hold]
    split_ifs with hnil
    · refine ⟨e, run.pendingStorage, rfl, rfl, rfl, fun hdirect => ?_, rfl⟩
      rw [hs hdirect] at hnil
      cases hnil
    · exact ⟨{ e with storage := [s] }, s, rfl, rfl, rfl, fun _ => ⟨rfl, rfl⟩, rfl⟩
  obtain ⟨e', stored, hoff, hlen, hflags, hdirect, heq⟩ := hheld
  rw [heq]
  refine ⟨⟨happend.start, happend.stop, happend.tiles, happend.same⟩, fun hstopped => ?_⟩
  have hlive := h.live hstopped
  have htiles := hlive.tiles
  rw [hp, Option.toList_none, List.append_nil, ← hfresh.next] at htiles
  have htiles' := Tiles.append htiles hoff (by rw [hlen]; exact hfresh.pos)
  rw [hlen] at htiles'
  refine ⟨htiles', hfresh.le, fun q hq => ?_, fun q hq x hx => ?_,
    fun d' hd' x hx hlo hhi => hlive.below_concat hfresh hd' hx hlo hhi, hlive.apart_concat hfresh⟩
  · cases hq
    refine ⟨by rw [hflags]; exact hplain, fun hflag => ?_⟩
    rw [hflags] at hflag
    obtain ⟨hstorage, rfl⟩ := hdirect hflag
    obtain ⟨s', hs', hlength, hbound⟩ := hfresh.whole (hplaced.mpr hflag)
    rw [hs hflag] at hs'
    cases hs'
    exact ⟨hstorage, by rw [hlen]; exact hlength, hbound⟩
  · cases hq
    have hx : e.Covers x := by
      rw [FileMapExtent.Covers, hoff, hlen] at hx
      exact hx
    have hsame := hfresh.same x hx
    refine ⟨d, hlive.first hfresh hx, hflags.trans hsame.flags, fun hd => ?_,
      fun _ htransformed => ?_⟩
    · obtain ⟨s', t, hs', ht, hspace, hplace⟩ := hsame.placed hd
      have hflag := hplaced.mp ((FileMapExtent.placed_iff_of_flags hsame.flags).mpr hd)
      rw [hs hflag] at ht
      cases ht
      exact ⟨s', s, hs', (hdirect hflag).1, hspace, by rw [hoff]; exact hplace⟩
    · rw [← FileMapExtent.has_eq_of_flags hsame.flags] at htransformed
      exact absurd htransformed hnot

theorem Sound.grow_fresh (h : run.Sound lo hi ds) (hp : run.pending = some p)
    (hstopped : run.stopped = false) (hfresh : Fresh lo hi run d e)
    (hplain : e.flags = GRUB_FILE_MAP_DIRECT ∨ e.flags = GRUB_FILE_MAP_ZERO + GRUB_FILE_MAP_HOLE)
    {s : FileMapStorage} (hs : e.flags = GRUB_FILE_MAP_DIRECT → e.storage = [s])
    (hfollows : run.follows p e s = true) :
    (({ run with next := e.logicalOffset + e.logicalLength } : FileMapRun).grow p e).Sound
      lo hi (ds ++ [d]) := by
  have happend := h.given.append [d]
  have hlive := h.live hstopped
  obtain ⟨hplaced, hnot⟩ := placed_iff_of_plain hplain
  have hholds := hlive.holds p hp
  rw [follows, Bool.and_eq_true, Bool.and_eq_true, Bool.or_eq_true, Bool.and_eq_true,
    decide_eq_true_eq, decide_eq_true_eq, decide_eq_true_eq, decide_eq_true_eq,
    decide_eq_true_eq] at hfollows
  obtain ⟨⟨hflags, hend⟩, hstorage⟩ := hfollows
  -- of a direct extent the storage goes on, too
  have hgoes : e.flags = GRUB_FILE_MAP_DIRECT → run.pendingStorage.addressSpace = s.addressSpace
      ∧ run.pendingStorage.offset + p.logicalLength = s.offset ∧ p.storage = [run.pendingStorage]
      ∧ s.offset + e.logicalLength < 2 ^ 64 ∧ run.pendingStorage.length = p.logicalLength := by
    intro hflag
    obtain ⟨hpstorage, hplen, hpbound⟩ := hholds.stored (hflags.trans hflag)
    obtain ⟨s', hs', hlength, hbound⟩ := hfresh.whole (hplaced.mpr hflag)
    rw [hs hflag] at hs'
    cases hs'
    rcases hstorage with hnil | ⟨hspace, hoff⟩
    · rw [hs hflag] at hnil
      cases hnil
    · rw [u64, Nat.mod_eq_of_lt hpbound, hplen] at hoff
      exact ⟨hspace, hoff, hpstorage, by rw [← hlength]; exact hbound, hplen⟩
  have htiles := hlive.tiles
  rw [hp, Option.toList_some] at htiles
  obtain ⟨mid, hfront, hpoff, hppos, hpend⟩ := Tiles.prefix_tiles htiles
  have hpend : mid + p.logicalLength = run.next := hpend
  have hnext := hfresh.next
  refine ⟨⟨happend.start, happend.stop, happend.tiles, happend.same⟩, fun _ => ⟨?_, hfresh.le,
    fun q hq => ?_, fun q hq x hx => ?_, fun d' hd' x hx hlo hhi =>
      hlive.below_concat hfresh hd' hx hlo hhi, hlive.apart_concat hfresh⟩⟩
  · have hlast : mid + (p.logicalLength + e.logicalLength) = e.logicalOffset + e.logicalLength := by
      omega
    exact Tiles.append_list hfront ⟨hpoff, Nat.add_pos_left hppos _, hlast⟩
  · cases hq
    refine ⟨hholds.plain, fun hflag => ?_⟩
    obtain ⟨hspace, hoff, hpstorage, hbound, hplen⟩ := hgoes (hflags.symm.trans hflag)
    have hsum : run.pendingStorage.offset + (run.pendingStorage.length + e.logicalLength)
        < 2 ^ 64 := by omega
    exact ⟨if_neg (by rw [hpstorage]; exact List.cons_ne_nil _ _),
      congrArg (· + e.logicalLength) hplen, hsum⟩
  · cases hq
    have hpnot := (placed_iff_of_plain hholds.plain).2
    by_cases hin : x < p.logicalOffset + p.logicalLength
    · obtain ⟨d', hfirst, hsame⟩ := hlive.same p hp x ⟨hx.1, hin⟩
      refine ⟨d', fileMapFirst_append hfirst, hsame.flags, fun hd => ?_, fun _ htransformed => ?_⟩
      · obtain ⟨s', t, hs', ht, hspace', hplace⟩ := hsame.placed hd
        have hflag := (placed_iff_of_plain hholds.plain).1.mp
          ((FileMapExtent.placed_iff_of_flags hsame.flags).mpr hd)
        obtain ⟨-, -, hpstorage, -, -⟩ := hgoes (hflags.symm.trans hflag)
        rw [hpstorage] at ht
        cases ht
        exact ⟨s', _, hs', if_neg (by rw [hpstorage]; exact List.cons_ne_nil _ _), hspace', hplace⟩
      · rw [← FileMapExtent.has_eq_of_flags hsame.flags] at htransformed
        exact absurd htransformed hpnot
    · obtain ⟨hxlo, hxhi⟩ := hx
      dsimp only at hxlo hxhi
      have hx : e.Covers x := ⟨by omega, by omega⟩
      have hsame := hfresh.same x hx
      refine ⟨d, hlive.first hfresh hx, hflags.trans hsame.flags, fun hd => ?_,
        fun _ htransformed => ?_⟩
      · obtain ⟨s', t, hs', ht, hspace', hplace⟩ := hsame.placed hd
        have hflag := hplaced.mp ((FileMapExtent.placed_iff_of_flags hsame.flags).mpr hd)
        obtain ⟨hspace, hoff, hpstorage, -, -⟩ := hgoes hflag
        rw [hs hflag] at ht
        cases ht
        refine ⟨s', _, hs', if_neg (by rw [hpstorage]; exact List.cons_ne_nil _ _),
          hspace.trans hspace', ?_⟩
        dsimp only
        rw [← hplace]
        omega
      · rw [← FileMapExtent.has_eq_of_flags hsame.flags] at htransformed
        exact absurd htransformed hnot

theorem localStorage_eq (h : Fresh lo hi run d e) (hflag : e.flags = GRUB_FILE_MAP_DIRECT) :
    e.storage = [run.localStorage unset e] := by
  have hplain := placed_iff_of_plain (.inl hflag)
  obtain ⟨s, hs, -⟩ := h.whole (hplain.1.mpr hflag)
  have hdirect : e.has GRUB_FILE_MAP_DIRECT = true := by
    rw [FileMapExtent.has, hflag]
    decide
  rw [localStorage, if_pos hdirect, hs]
  rfl

theorem Sound.pass (h : run.Sound lo hi ds) (hstopped : run.stopped = false)
    (hfresh : Fresh lo hi run d e) : (run.pass cancels hook unset e).Sound lo hi (ds ++ [d]) := by
  have hflush : (run.flush cancels hook).Sound lo hi ds := h.flush
  have hfresh' : Fresh lo hi (run.flush cancels hook) d e :=
    ⟨hfresh.next.trans flush_next_eq.symm, hfresh.pos, hfresh.le, hfresh.same, hfresh.edge,
      hfresh.whole⟩
  rw [FileMapRun.pass]
  dsimp only
  rw [flush_next]
  split_ifs with hplain
  · cases hp : run.pending.filter fun p =>
        follows { run with next := e.logicalOffset + e.logicalLength } p e
          (run.localStorage unset e) with
    | none => exact hflush.hold_fresh flush_pending hfresh' hplain (localStorage_eq hfresh)
    | some p =>
      obtain ⟨hpending, hfollows⟩ := Option.filter_eq_some_iff.mp hp
      exact h.grow_fresh hpending hstopped hfresh hplain (localStorage_eq hfresh) hfollows
  · exact hflush.give_fresh flush_pending hfresh'

/-- What clipping leaves of an extent that overlaps the query. -/
theorem clip_fresh {left : ℕ} (hclip : run.clip d left = .ok c)
    (hstop : run.stop = hi) (hleft : left = max d.logicalOffset lo) (hnext : left = run.next)
    (hover : left < min (d.logicalOffset + d.logicalLength) hi) : Fresh lo hi run d c := by
  have hclipped : c.logicalOffset = left
      ∧ c.logicalLength = min (d.logicalOffset + d.logicalLength) hi - left ∧ c.flags = d.flags
      ∧ (d.Placed → ∃ s t, d.storage = [s] ∧ c.storage = [t] ∧ t.addressSpace = s.addressSpace
        ∧ t.offset = s.offset + (left - d.logicalOffset) ∧ t.length = c.logicalLength
        ∧ t.offset + t.length < 2 ^ 64)
      ∧ (¬d.Placed → c.decodedLength = d.decodedLength ∧ c.storage = d.storage
        ∧ (d.has GRUB_FILE_MAP_TRANSFORMED = true →
          c.decodedOffset = d.decodedOffset + (left - d.logicalOffset))) := by
    subst hstop
    rw [clip, fileMapClip] at hclip
    split_ifs at hclip with hplaced htransformed hdecoded
    · cases hs : d.storage with
      | nil =>
        rw [hs] at hclip
        cases hclip
      | cons s rest =>
        cases rest with
        | cons t rest =>
          rw [hs] at hclip
          cases hclip
        | nil =>
          rw [hs] at hclip
          dsimp only at hclip
          split_ifs at hclip with hshort hlong
          cases hclip
          refine ⟨rfl, rfl, rfl, fun _ => ⟨s, _, rfl, rfl, rfl, rfl, rfl, ?_⟩,
            fun hno => absurd hplaced hno⟩
          simp only [not_or, Nat.not_le] at hlong
          exact hlong.2
    · cases hclip
      exact ⟨rfl, rfl, rfl, fun hyes => absurd hyes hplaced, fun _ => ⟨rfl, rfl, fun _ => rfl⟩⟩
    · cases hclip
      exact ⟨rfl, rfl, rfl, fun hyes => absurd hyes hplaced,
        fun _ => ⟨rfl, rfl, fun hyes => absurd hyes htransformed⟩⟩
  obtain ⟨hoff, hlen, hflags, hplaced, hother⟩ := hclipped
  refine ⟨hoff.trans hnext, by omega, by omega, fun x hx => ⟨hflags, fun hd => ?_,
    fun hno htransformed => ?_⟩, fun x hlo hhi => ?_, fun hc => ?_⟩
  · obtain ⟨s, t, hs, ht, hspace, htoff, -, -⟩ := hplaced hd
    have hge := hx.1
    exact ⟨s, t, hs, ht, hspace, by omega⟩
  · obtain ⟨hdlen, hstorage, hdecoded⟩ := hother hno
    have hge := hx.1
    have hdecoded := hdecoded htransformed
    exact ⟨by omega, hdlen, hstorage⟩
  · rw [FileMapExtent.Covers, FileMapExtent.Covers]
    omega
  · obtain ⟨s, t, -, ht, -, -, htlen, hbound⟩ :=
      hplaced ((FileMapExtent.placed_iff_of_flags hflags).mp hc)
    exact ⟨t, ht, htlen, hbound⟩

/-- One extent of a driver. -/
theorem Sound.emit (h : run.Sound lo hi ds) (hlt : lo < hi) (d : FileMapExtent) :
    (run.emit cancels hook unset d).2.Given lo hi (ds ++ [d])
      ∧ ((run.emit cancels hook unset d).1 = none →
        (run.emit cancels hook unset d).2.Sound lo hi (ds ++ [d])) := by
  have hpoll := h.cancelled cancels
  rw [FileMapRun.emit]
  split_ifs with hstopped hrange hout
  · have hskip := hpoll.skip (d := d) (.inl hstopped)
    exact ⟨hskip.given, fun _ => hskip⟩
  · exact ⟨hpoll.given.append [d], (fun h => by cases h)⟩
  · have hskip := hpoll.skip (d := d) (.inr fun x hlo hhi hx => by
      rw [hpoll.given.start, hpoll.given.stop] at hout
      obtain ⟨hfirst, hlast⟩ := hx
      omega)
    exact ⟨hskip.given, fun _ => hskip⟩
  · have hchecked := hpoll.checkAll cancels d.storage
    cases hcheck : (run.cancelled cancels).checkAll cancels d.storage with
    | mk err run' =>
      rw [hcheck] at hchecked
      cases err with
      | some err => exact ⟨hchecked.given.append [d], (fun h => by cases h)⟩
      | none =>
        dsimp only
        split_ifs with hstopped'
        · have hskip := hchecked.skip (d := d) (.inl hstopped')
          exact ⟨hskip.given, fun _ => hskip⟩
        · rw [place]
          dsimp only
          split_ifs with hdecoded hnext
          · exact ⟨hchecked.given.append [d], (fun h => by cases h)⟩
          · exact ⟨hchecked.given.append [d], (fun h => by cases h)⟩
          · cases hclip : run'.clip d (max d.logicalOffset run'.start) with
            | error err => exact ⟨hchecked.given.append [d], (fun h => by cases h)⟩
            | ok c =>
              rw [hpoll.given.start, hpoll.given.stop] at hout
              rw [hchecked.given.start] at hclip hnext
              have hfresh := clip_fresh hclip hchecked.given.stop rfl
                (not_not.mp hnext) (by omega)
              have hpass : (run'.pass cancels hook unset c).Sound lo hi (ds ++ [d]) :=
                hchecked.pass (Bool.eq_false_iff.mpr hstopped') hfresh
              exact ⟨hpass.given, fun _ => hpass⟩

/-- A driver, over all extents it would hand over. -/
theorem Sound.drive {fails : Option GrubError} {actions : List FileMapAction}
    (h : run.Sound lo hi ds) (hlt : lo < hi) :
    (run.drive cancels hook unset fails actions).2.Given lo hi
        (ds ++ actions.filterMap FileMapAction.extent?)
      ∧ ((run.drive cancels hook unset fails actions).1 = none →
        (run.drive cancels hook unset fails actions).2.Sound lo hi
          (ds ++ actions.filterMap FileMapAction.extent?)) := by
  induction actions generalizing run ds with
  | nil =>
    rw [List.filterMap_nil, List.append_nil]
    exact ⟨h.given, fun _ => h⟩
  | cons action actions ih =>
    cases action with
    | poll => exact ih (h.cancelled cancels)
    | emit e =>
      obtain ⟨hgiven, hsound⟩ := @Sound.emit cancels hook unset _ _ _ _ h hlt e
      have hsplit : ds ++ (FileMapAction.emit e :: actions).filterMap FileMapAction.extent?
          = ds ++ [e] ++ actions.filterMap FileMapAction.extent? := by
        rw [List.append_assoc]
        rfl
      rw [hsplit, FileMapRun.drive]
      cases hemit : run.emit cancels hook unset e with
      | mk err run' =>
        rw [hemit] at hgiven hsound
        cases err with
        | some err => exact ⟨hgiven.append _, (fun h => by cases h)⟩
        | none => exact ih (hsound rfl)

end FileMapRun

/-! ### A query -/

/-- What is said of a query from `offset` up to `stop`, for a driver that hands over `ds`. -/
structure FileMapAnswer.Right (answer : FileMapAnswer) (ds : List FileMapExtent)
    (offset stop : ℕ) : Prop where
  tiles : ∃ mid ≤ max offset stop, FileMapTiles offset answer.hooked mid
  same : ∀ e ∈ answer.hooked, ∀ x, e.Covers x → ∃ d, fileMapFirst ds x = some d ∧ d.SameAt e x
  whole : answer.err = none → answer.stopped = false →
    FileMapTiles offset answer.hooked (max offset stop)
  apart : answer.err = none → answer.stopped = false →
    ds.Pairwise fun d d' => ∀ x, offset ≤ x → x < stop → d.Covers x → ¬d'.Covers x

/-- Nothing is given for an empty query, or when the query fails at once. -/
theorem FileMapAnswer.right_nil {answer : FileMapAnswer} {ds : List FileMapExtent}
    {offset stop : ℕ} (hhooked : answer.hooked = [])
    (hempty : answer.err = none → answer.stopped = false → stop ≤ offset) :
    answer.Right ds offset stop := by
  refine ⟨⟨offset, Nat.le_max_left _ _, by rw [hhooked]; rfl⟩, fun e he => ?_,
    fun herr hstopped => ?_, fun herr hstopped => List.pairwise_of_forall fun d d' x hlo hhi => ?_⟩
  · rw [hhooked] at he
    cases he
  · rw [hhooked, Nat.max_eq_left (hempty herr hstopped)]
    rfl
  · have hle := hempty herr hstopped
    omega

theorem FileMapRun.Sound.answer {cancels hook : ℕ → Bool} {lo hi : ℕ} {ds : List FileMapExtent}
    {run : FileMapRun} (h : run.Sound lo hi ds) (hle : lo ≤ hi)
    (hnext : run.stopped = true ∨ run.next = hi) :
    FileMapAnswer.Right ⟨none, (run.flush cancels hook).stopped, (run.flush cancels hook).hooked⟩
      ds lo hi := by
  have hflush : (run.flush cancels hook).Sound lo hi ds := h.flush
  refine ⟨?_, hflush.given.same, fun _ hstopped => ?_,
    fun _ hstopped => (hflush.live hstopped).apart⟩
  · obtain ⟨mid, hmid, htiles⟩ := hflush.given.tiles
    exact ⟨mid, Nat.le_trans hmid (Nat.le_max_right _ _), htiles⟩
  · have htiles := (hflush.live hstopped).tiles
    rw [FileMapRun.flush_pending, Option.toList_none, List.append_nil,
      FileMapRun.flush_next_eq] at htiles
    rcases hnext with hstop | hnext
    · have htrue : (run.flush cancels hook).stopped = true := FileMapRun.flush_stopped hstop
      exact absurd (htrue.symm.trans hstopped) (by decide)
    · rw [Nat.max_eq_right hle, ← hnext]
      exact htiles

section Query

variable (cancels hook : ℕ → Bool) (unset : ℕ → FileMapStorage) (disk : Option FileMapDisk)
  (size : ℕ) (actions : List FileMapAction) (fails : Option GrubError) (offset length : ℕ)

theorem grubFileMapRangeEx_right :
    (grubFileMapRangeEx cancels hook unset disk size (some (actions, fails)) offset length).Right
      (actions.filterMap FileMapAction.extent?) offset (min (offset + length) size) := by
  rw [grubFileMapRangeEx]
  split_ifs with hadd hunknown
  · exact FileMapAnswer.right_nil rfl (fun h => by cases h)
  · exact FileMapAnswer.right_nil rfl (fun h => by cases h)
  obtain ⟨stop, hstop⟩ : ∃ stop, stop = min (offset + length) size := ⟨_, rfl⟩
  rw [← hstop]
  dsimp only
  obtain ⟨start, hrun⟩ : ∃ start : FileMapRun,
      start = ⟨offset, stop, offset, disk, false, 0, none, ⟨0, 0, 0⟩, []⟩ := ⟨_, rfl⟩
  rw [← hrun]
  have hstart : (start.cancelled cancels).stop = stop := by
    obtain ⟨stopped, polls, heq, -⟩ := @FileMapRun.cancelled_eq cancels start
    rw [heq, hrun]
  split_ifs with hstopped hempty
  · exact FileMapAnswer.right_nil rfl (fun _ h => by cases h)
  · rw [hstart] at hempty
    exact FileMapAnswer.right_nil rfl (fun _ _ => hempty)
  · rw [hstart] at hempty
    have hlt := Nat.lt_of_not_le hempty
    have hsound : start.Sound offset stop [] := by
      rw [hrun]
      exact ⟨⟨rfl, rfl, ⟨offset, Nat.le_of_lt hlt, rfl⟩, (fun e he => by cases he)⟩, fun _ =>
        ⟨rfl, Nat.le_of_lt hlt, (fun p hp => by cases hp), (fun p hp => by cases hp),
          (fun d hd => by cases hd), List.Pairwise.nil⟩⟩
    obtain ⟨hgiven, hdone⟩ := @FileMapRun.Sound.drive cancels hook unset _ _ _ _ fails actions
      (hsound.cancelled cancels) hlt
    rw [List.nil_append] at hgiven hdone
    cases hdrive : (start.cancelled cancels).drive cancels hook unset fails actions with
    | mk err run =>
      rw [hdrive] at hgiven hdone
      cases err with
      | some err =>
        obtain ⟨mid, hmid, htiles⟩ := hgiven.tiles
        exact ⟨⟨mid, Nat.le_trans hmid (Nat.le_max_right _ _), htiles⟩, hgiven.same,
          (fun h => by cases h), (fun h => by cases h)⟩
      | none =>
        have hpoll := (hdone rfl).cancelled cancels
        dsimp only
        split_ifs with hnext
        · obtain ⟨mid, hmid, htiles⟩ := hpoll.given.tiles
          exact ⟨⟨mid, Nat.le_trans hmid (Nat.le_max_right _ _), htiles⟩, hpoll.given.same,
            (fun h => by cases h), (fun h => by cases h)⟩
        · refine hpoll.answer (Nat.le_of_lt hlt) ?_
          rw [hpoll.given.stop, not_and, not_not] at hnext
          cases hlive : (run.cancelled cancels).stopped with
          | true => exact .inl rfl
          | false => exact .inr (hnext hlive)

/-- The hook gets the query in a row, each byte as the driver says it, up to where the run fails or
is stopped; two queries of one driver say the same of what both cover. -/
theorem fileMapRange_exact :
    (grubFileMapRangeEx cancels hook unset disk size (some (actions, fails)) offset length).Right
      (actions.filterMap FileMapAction.extent?) offset (min (offset + length) size)
    ∧ ∀ cancels' hook' unset' offset' length',
      ∀ e ∈ (grubFileMapRangeEx cancels hook unset disk size (some (actions, fails)) offset
        length).hooked,
      ∀ e' ∈ (grubFileMapRangeEx cancels' hook' unset' disk size (some (actions, fails)) offset'
        length').hooked,
      ∀ x, e.Covers x → e'.Covers x → e.SameAt e' x := by
  refine ⟨grubFileMapRangeEx_right cancels hook unset disk size actions fails offset length,
    fun cancels' hook' unset' offset' length' e he e' he' x hx hx' => ?_⟩
  obtain ⟨d, hfirst, hsame⟩ := (grubFileMapRangeEx_right cancels hook unset disk size actions fails
    offset length).same e he x hx
  obtain ⟨d', hfirst', hsame'⟩ := (grubFileMapRangeEx_right cancels' hook' unset' disk size actions
    fails offset' length').same e' he' x hx'
  rw [hfirst] at hfirst'
  cases hfirst'
  exact hsame.trans hsame'

end Query

/-- An extent that is direct and transformed, clipped in front, keeps its place behind the
decoding. -/
theorem fileMapRange_direct_transformed :
    ¬∀ (cancels hook : ℕ → Bool) (unset : ℕ → FileMapStorage) (disk : Option FileMapDisk) (size : ℕ)
      (actions : List FileMapAction) (fails : Option GrubError) (offset length : ℕ)
      (e d : FileMapExtent) (x : ℕ),
      e ∈ (grubFileMapRangeEx cancels hook unset disk size (some (actions, fails)) offset
        length).hooked →
      d ∈ actions.filterMap FileMapAction.extent? → e.Covers x → d.Covers x →
      d.has GRUB_FILE_MAP_TRANSFORMED = true →
      e.decodedOffset + (x - e.logicalOffset) = d.decodedOffset + (x - d.logicalOffset) := by
  intro h
  have hplace := h (fun _ => false) (fun _ => false) (fun _ => ⟨0, 0, 0⟩) none 10
    [.emit ⟨0, 10, 0, 0, 129, [⟨0, 10, 1⟩]⟩] none 5 5 ⟨5, 5, 0, 0, 129, [⟨5, 5, 1⟩]⟩
    ⟨0, 10, 0, 0, 129, [⟨0, 10, 1⟩]⟩ 5 (by decide) (by decide) (by decide) (by decide) (by decide)
  revert hplace
  decide

end FsRover
