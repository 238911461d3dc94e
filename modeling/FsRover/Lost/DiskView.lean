import FsRover.Lost.Disk

/-!
# Reading a lost partition window

`lostdisk_read` reads the range from the parent and lays the remaps over it, one after the other. What
it returns is a view of the parent: each byte comes from the last remap that covers it.

## Main definitions

* `FsRover.LostParent` : the disk that a window is on.
* `FsRover.lostdiskRead` : `lostdisk_read`.
* `FsRover.lostdiskByte` : the byte of the view.

## Main results

* `FsRover.lostdiskRead_view` : what a read returns, when it fails, and reads in pieces.
-/

namespace FsRover

/-- The disk of a window, in sectors of 512 bytes: `read` is `grub_disk_read`, and a read that
succeeds returns the bytes asked for. The bytes have 64-bit addresses. -/
structure LostParent where
  sectors : ℕ
  byte : Buf
  read : ℕ → ℕ → ℕ → Except GrubError (List UInt8)
  sectors_lt : 512 * sectors < 2 ^ 64
  read_eq : ∀ sector offset size bytes, read sector offset size = .ok bytes →
    bytes = (List.range' (512 * sector + offset) size).map byte

/-- The parts of a read that a remap covers: from where to where. -/
def LostRemap.clip (r : LostRemap) (first last : ℕ) : ℕ × ℕ :=
  (max first r.target, min last (u64 (r.target + r.length)))

/-- The loop of `lostdisk_read` over the remaps; `buf` is what was read at `first`. -/
def lostdiskOverlay (p : LostParent) (dev : Lostdisk) (first last : ℕ) :
    List LostRemap → List UInt8 → Except GrubError (List UInt8)
  | [], buf => .ok buf
  | r :: remap, buf =>
    let low := (r.clip first last).1
    let high := (r.clip first last).2
    if high ≤ low then lostdiskOverlay p dev first last remap buf
    else
      let source := u64 (u64 (512 * dev.start) + r.source + (low - r.target))
      match p.read (source / 512) (source % 512) (high - low) with
      | .error e => .error e
      | .ok bytes =>
        lostdiskOverlay p dev first last remap
          (buf.take (low - first) ++ bytes ++ buf.drop (high - first))

/-- `lostdisk_read`, of `size` sectors of 2 ^ `log` bytes from `sector` on. -/
def lostdiskRead (p : LostParent) (dev : Lostdisk) (log sector size : ℕ) :
    Except GrubError (List UInt8) :=
  let first := u64 (sector * 2 ^ log)
  let last := u64 (first + u64 (size * 2 ^ log))
  match p.read (u64 (dev.start + u64 (sector * 2 ^ (log - 9)))) 0 (u64 (size * 2 ^ log)) with
  | .error e => .error e
  | .ok buf => lostdiskOverlay p dev first last dev.remap buf

/-! ### The view -/

/-- The remap covers the byte. -/
def LostRemap.covers (r : LostRemap) (pos : ℕ) : Bool :=
  r.target ≤ pos && pos < r.target + r.length

/-- Byte `pos` of the window: where the last remap that covers it says, else where it is. -/
def lostdiskByte (p : LostParent) (dev : Lostdisk) (pos : ℕ) : UInt8 :=
  match dev.remap.reverse.find? (·.covers pos) with
  | some r => p.byte (512 * dev.start + r.source + (pos - r.target))
  | none => p.byte (512 * dev.start + pos)

/-- The reads of the parent that a read makes succeed. -/
structure LostdiskReads (p : LostParent) (dev : Lostdisk) (log sector size : ℕ) : Prop where
  range : ∃ bytes, p.read (dev.start + sector * 2 ^ (log - 9)) 0 (size * 2 ^ log) = .ok bytes
  remaps : ∀ r ∈ dev.remap, ∀ low high, low = max (sector * 2 ^ log) r.target →
    high = min ((sector + size) * 2 ^ log) (r.target + r.length) → low < high →
    ∃ bytes, p.read ((512 * dev.start + r.source + (low - r.target)) / 512)
      ((512 * dev.start + r.source + (low - r.target)) % 512) (high - low) = .ok bytes

/-- Consecutive reads of these sizes, from `sector` on. -/
def lostdiskReadAll (p : LostParent) (dev : Lostdisk) (log : ℕ) :
    ℕ → List ℕ → Except GrubError (List UInt8)
  | _, [] => .ok []
  | sector, size :: sizes =>
    match lostdiskRead p dev log sector size with
    | .error e => .error e
    | .ok bytes =>
      match lostdiskReadAll p dev log (sector + size) sizes with
      | .error e => .error e
      | .ok rest => .ok (bytes ++ rest)

section Overlay

variable {p : LostParent} {dev : Lostdisk}

/-- A byte of the window where some remaps were laid over `val`. -/
def lostdiskOver (p : LostParent) (dev : Lostdisk) (val : Buf) (remap : List LostRemap) : Buf :=
  fun pos =>
    match remap.reverse.find? (·.covers pos) with
    | some r => p.byte (512 * dev.start + r.source + (pos - r.target))
    | none => val pos

theorem lostdiskOver_cons (val : Buf) (r : LostRemap) (remap : List LostRemap) :
    lostdiskOver p dev val (r :: remap)
      = lostdiskOver p dev (lostdiskOver p dev val [r]) remap := by
  funext pos
  rw [lostdiskOver, lostdiskOver, List.reverse_cons, List.find?_append]
  cases hfind : remap.reverse.find? (·.covers pos) with
  | some s => rfl
  | none => rfl

theorem lostdiskOver_single (val : Buf) (r : LostRemap) (pos : ℕ) :
    lostdiskOver p dev val [r] pos = if r.covers pos = true then
      p.byte (512 * dev.start + r.source + (pos - r.target)) else val pos := by
  rw [lostdiskOver, List.reverse_singleton, List.find?_singleton]
  by_cases hcovers : r.covers pos = true
  · rw [if_pos hcovers, if_pos hcovers]
  · rw [if_neg hcovers, if_neg hcovers]

theorem map_range'_replace {val new : Buf} {first low high last : ℕ} (hlow : first ≤ low)
    (hmid : low ≤ high) (hhigh : high ≤ last)
    (hout : ∀ pos, first ≤ pos → pos < last → ¬ (low ≤ pos ∧ pos < high) → new pos = val pos) :
    ((List.range' first (last - first)).map val).take (low - first)
        ++ (List.range' low (high - low)).map new
        ++ ((List.range' first (last - first)).map val).drop (high - first)
      = (List.range' first (last - first)).map new := by
  have hsplit : ∀ f : Buf, (List.range' first (last - first)).map f
      = (List.range' first (low - first)).map f ++ (List.range' low (high - low)).map f
        ++ (List.range' high (last - high)).map f := by
    intro f
    have hfront : List.range' first (low - first) ++ List.range' low (high - low)
        = List.range' first (high - first) := by
      have happend := @List.range'_append_1 first (low - first) (high - low)
      rwa [show first + (low - first) = low by omega,
        show low - first + (high - low) = high - first by omega] at happend
    have hall : List.range' first (high - first) ++ List.range' high (last - high)
        = List.range' first (last - first) := by
      have happend := @List.range'_append_1 first (high - first) (last - high)
      rwa [show first + (high - first) = high by omega,
        show high - first + (last - high) = last - first by omega] at happend
    rw [← hall, ← hfront, List.map_append, List.map_append]
  have hfront : ((List.range' first (last - first)).map val).take (low - first)
      = (List.range' first (low - first)).map new := by
    rw [hsplit val, List.append_assoc, List.take_left' (by simp)]
    refine List.map_congr_left fun pos hpos => (hout pos ?_ ?_ ?_).symm <;>
      rw [List.mem_range'_1] at hpos <;> omega
  have hback : ((List.range' first (last - first)).map val).drop (high - first)
      = (List.range' high (last - high)).map new := by
    rw [hsplit val, List.drop_left' (by simp; omega)]
    refine List.map_congr_left fun pos hpos => (hout pos ?_ ?_ ?_).symm <;>
      rw [List.mem_range'_1] at hpos <;> omega
  rw [hfront, hback, hsplit new]

/-- The loop lays each remap over the range, if the parent can be read there. -/
theorem lostdiskOverlay_eq_ok_iff {first last : ℕ} (hle : first ≤ last)
    (hwindow : 512 * (dev.start + dev.sectors) < 2 ^ 64) :
    ∀ (remap : List LostRemap) (val : Buf) (bytes : List UInt8),
      (∀ r ∈ remap, r.Inside (512 * dev.sectors)) →
      (lostdiskOverlay p dev first last remap ((List.range' first (last - first)).map val)
          = .ok bytes
        ↔ (∀ r ∈ remap, ∀ low high, low = max first r.target →
            high = min last (r.target + r.length) → low < high →
            ∃ bytes, p.read ((512 * dev.start + r.source + (low - r.target)) / 512)
              ((512 * dev.start + r.source + (low - r.target)) % 512) (high - low) = .ok bytes)
          ∧ bytes = (List.range' first (last - first)).map (lostdiskOver p dev val remap)) := by
  intro remap
  induction remap with
  | nil =>
    intro val bytes _
    rw [lostdiskOverlay]
    refine ⟨fun h => ⟨fun r hr => absurd hr List.not_mem_nil, (Except.ok.inj h).symm⟩, fun h => ?_⟩
    rw [h.2]
    rfl
  | cons r remap ih =>
    intro val bytes hinside
    obtain ⟨hr, hremap⟩ := List.forall_mem_cons.mp hinside
    obtain ⟨-, hlength, htarget, hsource⟩ := hr
    have hclip : r.clip first last = (max first r.target, min last (r.target + r.length)) := by
      rw [LostRemap.clip, u64_of_lt (by omega)]
    rw [lostdiskOverlay, hclip, List.forall_mem_cons, lostdiskOver_cons]
    simp only
    have hover : ∀ pos, ¬ (max first r.target ≤ pos ∧ pos < min last (r.target + r.length)) →
        first ≤ pos → pos < last → lostdiskOver p dev val [r] pos = val pos := by
      intro pos hpos hfirst hpos'
      rw [lostdiskOver_single, if_neg]
      rw [LostRemap.covers, Bool.and_eq_true, decide_eq_true_eq, decide_eq_true_eq]
      omega
    by_cases hempty : min last (r.target + r.length) ≤ max first r.target
    · rw [if_pos hempty]
      have hsame : (List.range' first (last - first)).map val
          = (List.range' first (last - first)).map (lostdiskOver p dev val [r]) := by
        refine List.map_congr_left fun pos hpos => ?_
        rw [List.mem_range'_1] at hpos
        exact (hover pos (by omega) hpos.1 (by omega)).symm
      rw [hsame, ih _ bytes hremap]
      refine and_congr_left' ⟨fun h => ⟨fun low high hlow hhigh hlt => ?_, h⟩, fun h => h.2⟩
      omega
    · rw [if_neg hempty]
      have hpos : u64 (u64 (512 * dev.start) + r.source + (max first r.target - r.target))
          = 512 * dev.start + r.source + (max first r.target - r.target) := by
        have hstart : u64 (512 * dev.start) = 512 * dev.start := u64_of_lt (by omega)
        rw [hstart]
        exact u64_of_lt (by omega)
      rw [hpos]
      cases hread : p.read ((512 * dev.start + r.source + (max first r.target - r.target)) / 512)
          ((512 * dev.start + r.source + (max first r.target - r.target)) % 512)
          (min last (r.target + r.length) - max first r.target) with
      | error e =>
        refine ⟨(fun h => by cases h), fun h => ?_⟩
        obtain ⟨bytes', hbytes'⟩ := h.1.1 _ _ rfl rfl (by omega)
        rw [hread] at hbytes'
        cases hbytes'
      | ok new =>
        have hnew : new = (List.range' (max first r.target)
            (min last (r.target + r.length) - max first r.target)).map
              (lostdiskOver p dev val [r]) := by
          rw [p.read_eq _ _ _ _ hread, Nat.div_add_mod]
          refine List.ext_getElem (by simp) fun k hk _ => ?_
          rw [List.length_map, List.length_range'] at hk
          rw [List.getElem_map, List.getElem_map, List.getElem_range', List.getElem_range',
            lostdiskOver_single, if_pos]
          · refine congrArg p.byte ?_
            omega
          · rw [LostRemap.covers, Bool.and_eq_true, decide_eq_true_eq, decide_eq_true_eq]
            omega
        simp only
        rw [hnew, map_range'_replace (by omega) (by omega) (by omega) fun pos hfirst hpos' hout =>
          hover pos hout hfirst hpos', ih _ bytes hremap]
        refine and_congr_left' ⟨fun h => ⟨fun low high hlow hhigh _ => ?_, h⟩, fun h => h.2⟩
        subst hlow hhigh
        exact ⟨new, hread⟩

end Overlay

section Read

variable {p : LostParent} {dev : Lostdisk} {log sector size : ℕ}

/-- When a read inside the window succeeds, and with which bytes. -/
theorem lostdiskRead_eq_ok_iff (hwindow : dev.start + dev.sectors ≤ p.sectors)
    (hremap : lostdiskCheckRemap (512 * dev.sectors) dev.remap = .ok ()) (hlog : 9 ≤ log)
    (hinside : (sector + size) * 2 ^ log ≤ 512 * dev.sectors) {bytes : List UInt8} :
    lostdiskRead p dev log sector size = .ok bytes ↔ LostdiskReads p dev log sector size
      ∧ bytes = (List.range' (sector * 2 ^ log) (size * 2 ^ log)).map (lostdiskByte p dev) := by
  have hsectors := p.sectors_lt
  have hend : 512 * (dev.start + dev.sectors) < 2 ^ 64 := by omega
  have hscale : sector * 2 ^ log = 512 * (sector * 2 ^ (log - 9)) := by
    rw [Nat.mul_left_comm, show (512 : ℕ) = 2 ^ 9 by rfl, ← Nat.pow_add, Nat.add_sub_cancel' hlog]
  have hsum : (sector + size) * 2 ^ log = sector * 2 ^ log + size * 2 ^ log := Nat.add_mul _ _ _
  have hfirst : u64 (sector * 2 ^ log) = sector * 2 ^ log := u64_of_lt (by omega)
  have hsize : u64 (size * 2 ^ log) = size * 2 ^ log := u64_of_lt (by omega)
  have hlast : u64 (sector * 2 ^ log + size * 2 ^ log) = sector * 2 ^ log + size * 2 ^ log :=
    u64_of_lt (by omega)
  have hnative : u64 (sector * 2 ^ (log - 9)) = sector * 2 ^ (log - 9) := u64_of_lt (by omega)
  have hplace : u64 (dev.start + sector * 2 ^ (log - 9)) = dev.start + sector * 2 ^ (log - 9) :=
    u64_of_lt (by omega)
  rw [lostdiskRead, hfirst, hsize, hlast, hnative, hplace]
  cases hread : p.read (dev.start + sector * 2 ^ (log - 9)) 0 (size * 2 ^ log) with
  | error e =>
    refine ⟨(fun h => by cases h), fun h => ?_⟩
    obtain ⟨buf, hbuf⟩ := h.1.range
    rw [hread] at hbuf
    cases hbuf
  | ok buf =>
    have hbuf : buf = (List.range' (sector * 2 ^ log)
        (sector * 2 ^ log + size * 2 ^ log - sector * 2 ^ log)).map
          fun pos => p.byte (512 * dev.start + pos) := by
      rw [p.read_eq _ _ _ _ hread]
      refine List.ext_getElem (by simp) fun k hk _ => ?_
      rw [List.getElem_map, List.getElem_map, List.getElem_range', List.getElem_range']
      refine congrArg p.byte ?_
      omega
    simp only
    rw [hbuf, lostdiskOverlay_eq_ok_iff (Nat.le_add_right _ _) hend _ _ _
      (lostdiskCheckRemap_eq_ok_iff.mp hremap).2, Nat.add_sub_cancel_left]
    refine and_congr_left' ⟨fun h => ⟨⟨buf, hread⟩, ?_⟩, fun h => ?_⟩
    · rw [← hsum] at h
      exact h
    · rw [← hsum]
      exact h.remaps

/-- Consecutive reads that succeed return the bytes of the view. -/
theorem lostdiskReadAll_eq (hwindow : dev.start + dev.sectors ≤ p.sectors)
    (hremap : lostdiskCheckRemap (512 * dev.sectors) dev.remap = .ok ()) (hlog : 9 ≤ log) :
    ∀ (sizes : List ℕ) (sector : ℕ) (bytes : List UInt8),
      (sector + sizes.sum) * 2 ^ log ≤ 512 * dev.sectors →
      lostdiskReadAll p dev log sector sizes = .ok bytes →
      bytes = (List.range' (sector * 2 ^ log) (sizes.sum * 2 ^ log)).map (lostdiskByte p dev) := by
  intro sizes
  induction sizes with
  | nil =>
    intro sector bytes _ hread
    obtain rfl := Except.ok.inj hread
    rw [List.sum_nil, Nat.zero_mul]
    rfl
  | cons size sizes ih =>
    intro sector bytes hinside hread
    rw [List.sum_cons, ← Nat.add_assoc] at hinside
    rw [lostdiskReadAll] at hread
    cases hfirst : lostdiskRead p dev log sector size with
    | error e =>
      rw [hfirst] at hread
      cases hread
    | ok front =>
      rw [hfirst] at hread
      simp only at hread
      cases hrest : lostdiskReadAll p dev log (sector + size) sizes with
      | error e =>
        rw [hrest] at hread
        cases hread
      | ok back =>
        rw [hrest] at hread
        obtain rfl := Except.ok.inj hread
        have hle : (sector + size) * 2 ^ log ≤ 512 * dev.sectors :=
          Nat.le_trans (Nat.mul_le_mul_right _ (Nat.le_add_right _ _)) hinside
        rw [((lostdiskRead_eq_ok_iff hwindow hremap hlog hle).mp hfirst).2,
          ih (sector + size) back hinside hrest, ← List.map_append, Nat.add_mul,
          List.range'_append_1, List.sum_cons, Nat.add_mul]

end Read

/-- A window is a view of its parent: a read inside it that succeeds returns the bytes that the last
remap over each gives, it succeeds exactly if the reads of the parent that it makes do, and any
partition into consecutive reads returns the same bytes as the single read. -/
theorem lostdiskRead_view {p : LostParent} {dev : Lostdisk} {log sector size : ℕ}
    (hwindow : dev.start + dev.sectors ≤ p.sectors)
    (hremap : lostdiskCheckRemap (512 * dev.sectors) dev.remap = .ok ()) (hlog : 9 ≤ log)
    (hinside : (sector + size) * 2 ^ log ≤ 512 * dev.sectors) :
    (∀ bytes, lostdiskRead p dev log sector size = .ok bytes ↔ LostdiskReads p dev log sector size
      ∧ bytes = (List.range' (sector * 2 ^ log) (size * 2 ^ log)).map (lostdiskByte p dev))
    ∧ ∀ sizes bytes pieces, sizes.sum = size → lostdiskRead p dev log sector size = .ok bytes →
      lostdiskReadAll p dev log sector sizes = .ok pieces → pieces = bytes := by
  refine ⟨fun bytes => lostdiskRead_eq_ok_iff hwindow hremap hlog hinside, ?_⟩
  rintro sizes bytes pieces rfl hread hpieces
  rw [((lostdiskRead_eq_ok_iff hwindow hremap hlog hinside).mp hread).2]
  exact lostdiskReadAll_eq hwindow hremap hlog sizes sector pieces hinside hpieces

/-- A parent of four sectors that can be read everywhere. -/
def lostSmallParent : LostParent where
  sectors := 4
  byte := fun i => UInt8.ofNat (i / 512)
  read sector offset size :=
    .ok ((List.range' (512 * sector + offset) size).map fun i => UInt8.ofNat (i / 512))
  sectors_lt := by decide
  read_eq _ _ _ _ h := (Except.ok.inj h).symm

theorem lostdiskRead_view_one :
    (∀ bytes, lostdiskRead lostSmallParent ⟨"lost0", "hd0", 1, 2, [⟨0, 512, 16⟩], 0⟩ 9 0 1 = .ok bytes
      ↔ LostdiskReads lostSmallParent ⟨"lost0", "hd0", 1, 2, [⟨0, 512, 16⟩], 0⟩ 9 0 1
        ∧ bytes = (List.range' (0 * 2 ^ 9) (1 * 2 ^ 9)).map
          (lostdiskByte lostSmallParent ⟨"lost0", "hd0", 1, 2, [⟨0, 512, 16⟩], 0⟩))
    ∧ ∀ sizes bytes pieces, sizes.sum = 1 →
      lostdiskRead lostSmallParent ⟨"lost0", "hd0", 1, 2, [⟨0, 512, 16⟩], 0⟩ 9 0 1 = .ok bytes →
      lostdiskReadAll lostSmallParent ⟨"lost0", "hd0", 1, 2, [⟨0, 512, 16⟩], 0⟩ 9 0 sizes
        = .ok pieces → pieces = bytes :=
  lostdiskRead_view (by decide) rfl (by decide) (by decide)

end FsRover
