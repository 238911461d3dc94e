import FsRover.Fs.Jffs2
import FsRover.Lib.Memory

/-!
# The scan of a JFFS2 media

`grub_jffs2_scan_media` looks for nodes at each multiple of four. It sees the media through a window,
which is loaded again where the bytes of a node are not all in it, and goes on behind a node by the
length that the node gives, rounded up in 32 bits.

## Main definitions

* `FsRover.Jffs2Window`, `FsRover.jffs2ScanGet` : the window.
* `FsRover.grubJffs2ScanMedia` : the scan.
* `FsRover.jffs2Walk` : the walk over the nodes, with lengths rounded up without a bound.

## Main results

* `FsRover.jffs2ScanNode_eq` : what is collected of a node does not depend on the window.
* `FsRover.jffs2ScanLoop_walks`, `FsRover.jffs2ScanLoop_stuck` : a scan that ends, and one that does
  not.
-/

namespace FsRover

open Outcome Memory

/-! ### The window -/

/-- A device of so many sectors. Its size is below 2^64, so no position on it wraps. -/
def Jffs2Media.ofDevice (bytes : Buf) (sectors : ℕ) (swap : Bool) : Jffs2Media :=
  ⟨⟨bytes, some sectors⟩, swap, 512 * sectors⟩

/-- `struct grub_jffs2_scan`, with the bytes of `buf` that are loaded. -/
structure Jffs2Window where
  base : ℕ
  mem : Mem

/-- The window before anything is loaded. -/
def Jffs2Window.empty : Jffs2Window := ⟨0, Mem.zeroed 0⟩

def JFFS2_SCAN_CHUNK : ℕ := 0x10000
def JFFS2_SCAN_SLACK : ℕ := 512

def jffs2ScanFailed : GrubError := ⟨.badFs, "jffs2: scan failed"⟩

/-- `grub_jffs2_scan_get`: where `pos` is in the window. -/
def jffs2ScanGet (media : Jffs2Media) (scan : Jffs2Window) (pos need : ℕ) :
    Outcome GrubError (ℕ × Jffs2Window) :=
  if pos < scan.base ∨ scan.base + scan.mem.len < pos + need then
    let want := min (JFFS2_SCAN_CHUNK + JFFS2_SCAN_SLACK) (media.size - pos)
    if want < need then failed jffs2ScanFailed
    else
      match media.disk.read pos want with
      | .error e => failed e
      | .ok bytes => done (0, ⟨pos, ⟨want, bytes⟩⟩)
  else done (pos - scan.base, scan)

/-! ### The scan -/

/-- `struct grub_jffs2_dirent`. -/
structure Jffs2Dirent where
  pino : ℕ
  version : ℕ
  ino : ℕ
  mctime : ℕ
  type : UInt8
  name : List UInt8
  deriving DecidableEq

/-- What `grub_jffs2_scan_media` does with a node, and the window then. -/
def jffs2ScanNode (media : Jffs2Media) (scan : Jffs2Window) (pos totlen nodetype : ℕ) :
    Outcome GrubError (Jffs2Window × Option (Jffs2Ref ⊕ Jffs2Dirent)) :=
  if nodetype = 0xe002 ∧ 68 ≤ totlen then do
    let (i, scan) ← jffs2ScanGet media scan pos 68
    let p : Buf ← scan.mem.field i 68
    if media.get32 p 64 ≠ jffs2Crc (p.list 0 60) then done (scan, none)
    else
      let csize := media.get32 p 48
      let dsize := media.get32 p 52
      if totlen - 68 < csize ∨ 0x100000 < dsize ∨ (p 56 = 0 ∧ csize ≠ dsize) then done (scan, none)
      else if media.get32 p 12 ≠ 0 then
        done (scan, some (.inl ⟨pos, media.get32 p 12, media.get32 p 16, media.get32 p 44, dsize,
          media.get32 p 28⟩))
      else done (scan, none)
  else if nodetype = 0xe001 ∧ 41 ≤ totlen then do
    let (i, scan) ← jffs2ScanGet media scan pos 40
    let p : Buf ← scan.mem.field i 40
    let nsize := byteAt p 28
    if nsize = 0 ∨ totlen < 40 + nsize then done (scan, none)
    else do
      let (i, scan) ← jffs2ScanGet media scan pos (40 + nsize)
      let p : Buf ← scan.mem.field i (40 + nsize)
      if media.get32 p 32 ≠ jffs2Crc (p.list 0 32) ∨ media.get32 p 36 ≠ jffs2Crc (p.list 40 nsize)
      then done (scan, none)
      else
        done (scan, some (.inr ⟨media.get32 p 12, media.get32 p 16, media.get32 p 20,
          media.get32 p 24, p 29, p.list 40 nsize⟩))
  else done (scan, none)

/-- The loop of `grub_jffs2_scan_media`, at most `rounds` rounds of it: the nodes it collects, those of
`refs` and of `dents` in one list. -/
def jffs2ScanLoop (media : Jffs2Media) : ℕ → Jffs2Window → ℕ →
    Outcome GrubError (List (Jffs2Ref ⊕ Jffs2Dirent))
  | 0, _, _ => deep
  | rounds + 1, scan, pos =>
    if pos + 12 ≤ media.size then do
      let (i, scan) ← jffs2ScanGet media scan pos 12
      let p : Buf ← scan.mem.field i 12
      if media.get16 p 0 ≠ 0x1985 ∨ media.get32 p 8 ≠ jffs2Crc (p.list 0 8) then
        jffs2ScanLoop media rounds scan (pos + 4)
      else
        let totlen := media.get32 p 4
        if totlen < 12 ∨ media.size - pos < totlen then jffs2ScanLoop media rounds scan (pos + 4)
        else do
          let (scan, node) ← jffs2ScanNode media scan pos totlen (media.get16 p 2)
          let rest ← jffs2ScanLoop media rounds scan (pos + u32 (totlen + 3) / 4 * 4)
          done (node.toList ++ rest)
    else done []

/-- `grub_jffs2_scan_media`. -/
def grubJffs2ScanMedia (rounds : ℕ) (media : Jffs2Media) :
    Outcome GrubError (List (Jffs2Ref ⊕ Jffs2Dirent)) :=
  jffs2ScanLoop media rounds .empty 0

/-! ### The walk -/

/-- The directory entry in a node of `totlen` bytes at `pos`. -/
def jffs2ScanDent (media : Jffs2Media) (pos totlen : ℕ) : Option Jffs2Dirent :=
  let p := media.disk.bytes.from pos
  let nsize := byteAt p 28
  if media.get16 p 2 = 0xe001 ∧ 41 ≤ totlen ∧ nsize ≠ 0 ∧ 40 + nsize ≤ totlen
      ∧ media.get32 p 32 = jffs2Crc (p.list 0 32) ∧ media.get32 p 36 = jffs2Crc (p.list 40 nsize) then
    some ⟨media.get32 p 12, media.get32 p 16, media.get32 p 20, media.get32 p 24, p 29,
      p.list 40 nsize⟩
  else none

/-- What there is to collect of a node of `totlen` bytes at `pos`. -/
def jffs2NodeAt (media : Jffs2Media) (pos totlen : ℕ) : Option (Jffs2Ref ⊕ Jffs2Dirent) :=
  match jffs2ScanRef media pos totlen with
  | some ref => some (.inl ref)
  | none => (jffs2ScanDent media pos totlen).map .inr

/-- The first multiple of four at or behind the end of the node at `pos`, or the next one behind `pos`
if there is no node. -/
def jffs2Next (media : Jffs2Media) (pos : ℕ) : ℕ :=
  match jffs2NodeLen media pos with
  | none => pos + 4
  | some totlen => (pos + totlen + 3) / 4 * 4

/-- What is collected at `pos`. -/
def jffs2Here (media : Jffs2Media) (pos : ℕ) : List (Jffs2Ref ⊕ Jffs2Dirent) :=
  match jffs2NodeLen media pos with
  | none => []
  | some totlen => (jffs2NodeAt media pos totlen).toList

theorem lt_jffs2Next (media : Jffs2Media) (pos : ℕ) : pos < jffs2Next media pos := by
  rw [jffs2Next]
  cases hlen : jffs2NodeLen media pos with
  | none => exact Nat.lt_add_of_pos_right (by decide)
  | some totlen =>
    have hle : 12 ≤ totlen := by
      rw [jffs2NodeLen] at hlen
      split_ifs at hlen with hnode
      obtain rfl := Option.some.inj hlen
      exact hnode.2.2.1
    show pos < (pos + totlen + 3) / 4 * 4
    omega

/-- The nodes that the walk from `pos` on meets. -/
def jffs2Walk (media : Jffs2Media) (pos : ℕ) : List (Jffs2Ref ⊕ Jffs2Dirent) :=
  if pos + 12 ≤ media.size then jffs2Here media pos ++ jffs2Walk media (jffs2Next media pos) else []
termination_by media.size - pos
decreasing_by
  have hlt := lt_jffs2Next media pos
  omega

/-- Where the walk gets to. -/
inductive Jffs2Met (media : Jffs2Media) : ℕ → Prop
  | start : Jffs2Met media 0
  | next {pos : ℕ} (h : Jffs2Met media pos) (hin : pos + 12 ≤ media.size) :
    Jffs2Met media (jffs2Next media pos)

/-- No node that the walk meets has a length that cannot be rounded up in 32 bits. -/
def Jffs2Rounds (media : Jffs2Media) : Prop :=
  ∀ pos, Jffs2Met media pos → pos + 12 ≤ media.size →
    ∀ totlen ∈ jffs2NodeLen media pos, totlen ≤ 0xfffffffc

/-! ### The window shows the media -/

variable {media : Jffs2Media} {scan : Jffs2Window} {pos need : ℕ}

/-- Each range of the media can be read. -/
def Jffs2Media.Readable (media : Jffs2Media) : Prop :=
  ∀ pos len, pos + len ≤ media.size → media.disk.read pos len = .ok (media.disk.bytes.from pos)

theorem Jffs2Media.readable (bytes : Buf) (sectors : ℕ) (swap : Bool) :
    (Jffs2Media.ofDevice bytes sectors swap).Readable :=
  fun _ _ h => if_pos h

/-- What is loaded is on the media. -/
def Jffs2Window.Shows (media : Jffs2Media) (scan : Jffs2Window) : Prop :=
  scan.mem.len = 0 ∨ scan.mem.byte = media.disk.bytes.from scan.base

/-- `need` bytes from `pos` on are in the window. -/
structure Jffs2Window.Has (media : Jffs2Media) (scan : Jffs2Window) (pos need : ℕ) : Prop where
  shows : scan.Shows media
  base_le : scan.base ≤ pos
  le_end : pos + need ≤ scan.base + scan.mem.len

theorem jffs2ScanGet_has (hread : media.Readable) (h : scan.Shows media)
    (hneed : need ≤ JFFS2_SCAN_CHUNK + JFFS2_SCAN_SLACK) (hin : pos + need ≤ media.size) :
    ∃ scan', jffs2ScanGet media scan pos need = done (pos - scan'.base, scan')
      ∧ scan'.Has media pos need := by
  rw [jffs2ScanGet]
  by_cases hload : pos < scan.base ∨ scan.base + scan.mem.len < pos + need
  · obtain ⟨want, hwant⟩ : ∃ want, want
        = min (JFFS2_SCAN_CHUNK + JFFS2_SCAN_SLACK) (media.size - pos) := ⟨_, rfl⟩
    refine ⟨⟨pos, ⟨want, media.disk.bytes.from pos⟩⟩, ?_, .inr rfl, Nat.le_refl pos, ?_⟩
    · rw [if_pos hload]
      dsimp only
      rw [← hwant, if_neg (by omega), hread pos want (by omega), Nat.sub_self]
    · show pos + need ≤ pos + want
      omega
  · exact ⟨scan, if_neg hload, h, by omega, by omega⟩

theorem Jffs2Window.Has.field {n : ℕ} (h : scan.Has media pos need) (hn : n ≤ need) (hpos : 0 < need) :
    (scan.mem.field (pos - scan.base) n : Outcome GrubError (ℕ → UInt8))
      = done (media.disk.bytes.from pos) := by
  have hbase := h.base_le
  have hend := h.le_end
  have hbytes : scan.mem.byte = media.disk.bytes.from scan.base :=
    h.shows.resolve_left (by omega)
  rw [field_of_le (by omega), hbytes]
  refine congrArg done (funext fun k => ?_)
  rw [Buf.from_apply, Buf.from_apply]
  exact congrArg media.disk.bytes (by omega)

/-- What is collected of a node is what is there on the media. -/
theorem jffs2ScanNode_eq {totlen : ℕ} (hread : media.Readable) (h : scan.Shows media)
    (hin : pos + totlen ≤ media.size) :
    ∃ scan', jffs2ScanNode media scan pos totlen (media.get16 (media.disk.bytes.from pos) 2)
        = done (scan', jffs2NodeAt media pos totlen) ∧ scan'.Shows media := by
  obtain ⟨p, hp⟩ : ∃ p, p = media.disk.bytes.from pos := ⟨_, rfl⟩
  rw [jffs2ScanNode, jffs2NodeAt, ← hp]
  by_cases hinode : media.get16 p 2 = 0xe002 ∧ 68 ≤ totlen
  · obtain ⟨scan₁, hget, hhas⟩ := @jffs2ScanGet_has _ _ pos 68 hread h (by decide) (by omega)
    have hdent : ¬ media.get16 p 2 = 0xe001 := by omega
    rw [if_pos hinode, hget, done_bind, jffs2ScanRef, jffs2ScanDent, ← hp]
    dsimp only
    rw [hhas.field (Nat.le_refl 68) (by decide), done_bind, ← hp]
    refine ⟨scan₁, ?_, hhas.shows⟩
    by_cases hcrc : media.get32 p 64 = jffs2Crc (p.list 0 60)
    · rw [if_neg (not_not.mpr hcrc)]
      by_cases hbad : totlen - 68 < media.get32 p 48 ∨ 0x100000 < media.get32 p 52
          ∨ (p 56 = 0 ∧ media.get32 p 48 ≠ media.get32 p 52)
      · rw [if_pos hbad, if_neg fun hall => hall.2.2.2.1 hbad, if_neg fun hall => hdent hall.1]
        rfl
      · rw [if_neg hbad]
        by_cases hino : media.get32 p 12 = 0
        · rw [if_neg (not_not.mpr hino), if_neg fun hall => hall.2.2.2.2 hino,
            if_neg fun hall => hdent hall.1]
          rfl
        · rw [if_pos hino, if_pos ⟨hinode.1, hinode.2, hcrc, hbad, hino⟩]
    · rw [if_pos hcrc, if_neg fun hall => hcrc hall.2.2.1, if_neg fun hall => hdent hall.1]
      rfl
  · have href : jffs2ScanRef media pos totlen = none := by
      rw [jffs2ScanRef, ← hp]
      exact if_neg fun hall => hinode ⟨hall.1, hall.2.1⟩
    rw [if_neg hinode, href]
    dsimp only
    rw [jffs2ScanDent, ← hp]
    by_cases hentry : media.get16 p 2 = 0xe001 ∧ 41 ≤ totlen
    · obtain ⟨scan₁, hget, hhas⟩ := @jffs2ScanGet_has _ _ pos 40 hread h (by decide) (by omega)
      rw [if_pos hentry, hget, done_bind]
      dsimp only
      rw [hhas.field (Nat.le_refl 40) (by decide), done_bind, ← hp]
      by_cases hsize : byteAt p 28 = 0 ∨ totlen < 40 + byteAt p 28
      · refine ⟨scan₁, ?_, hhas.shows⟩
        rw [if_pos hsize, if_neg (by omega)]
        rfl
      · have hlt := byteAt_lt p 28
        have hroom : 40 + byteAt p 28 ≤ JFFS2_SCAN_CHUNK + JFFS2_SCAN_SLACK :=
          Nat.le_trans (by omega : _ ≤ 296) (by decide)
        obtain ⟨scan₂, hget', hhas'⟩ := @jffs2ScanGet_has _ _ pos (40 + byteAt p 28) hread hhas.shows
          hroom (by omega)
        refine ⟨scan₂, ?_, hhas'.shows⟩
        rw [if_neg hsize, hget', done_bind]
        dsimp only
        rw [hhas'.field (Nat.le_refl _) (by omega), done_bind, ← hp]
        by_cases hcrc : media.get32 p 32 = jffs2Crc (p.list 0 32)
            ∧ media.get32 p 36 = jffs2Crc (p.list 40 (byteAt p 28))
        · rw [if_neg (by rw [not_or, not_not, not_not]; exact hcrc),
            if_pos ⟨hentry.1, hentry.2, by omega, by omega, hcrc⟩]
          rfl
        · rw [if_pos (by rwa [← not_and_or]), if_neg fun hall => hcrc hall.2.2.2.2]
          rfl
    · refine ⟨scan, ?_, h⟩
      rw [if_neg hentry, if_neg fun hall => hentry ⟨hall.1, hall.2.1⟩]
      rfl

/-! ### The loop -/

/-- Where the code goes on behind `pos`. -/
def jffs2Step (media : Jffs2Media) (pos : ℕ) : ℕ :=
  match jffs2NodeLen media pos with
  | none => pos + 4
  | some totlen => pos + u32 (totlen + 3) / 4 * 4

theorem jffs2NodeLen_eq_some {totlen : ℕ} (h : jffs2NodeLen media pos = some totlen) :
    12 ≤ totlen ∧ totlen ≤ media.size - pos ∧ totlen < 2 ^ 32 := by
  rw [jffs2NodeLen] at h
  split_ifs at h with hnode
  obtain rfl := Option.some.inj h
  refine ⟨hnode.2.2.1, hnode.2.2.2, ?_⟩
  rw [Jffs2Media.get32]
  split_ifs
  · exact lostBe32_lt _ _
  · exact lostLe32_lt _ _

theorem jffs2ScanLoop_step (hread : media.Readable) (h : scan.Shows media)
    (hin : pos + 12 ≤ media.size) :
    ∃ scan', scan'.Shows media ∧ ∀ rounds, jffs2ScanLoop media (rounds + 1) scan pos
      = jffs2ScanLoop media rounds scan' (jffs2Step media pos) >>= fun rest =>
          done (jffs2Here media pos ++ rest) := by
  obtain ⟨scan₁, hget, hhas⟩ := @jffs2ScanGet_has _ _ pos 12 hread h (by decide) hin
  obtain ⟨p, hp⟩ : ∃ p, p = media.disk.bytes.from pos := ⟨_, rfl⟩
  have hskip : ∀ x : Outcome GrubError (List (Jffs2Ref ⊕ Jffs2Dirent)),
      x = x >>= fun rest => done ([] ++ rest) := fun x => by cases x <;> rfl
  have hround : ∀ rounds, jffs2ScanLoop media (rounds + 1) scan pos
      = if media.get16 p 0 ≠ 0x1985 ∨ media.get32 p 8 ≠ jffs2Crc (p.list 0 8) then
          jffs2ScanLoop media rounds scan₁ (pos + 4)
        else if media.get32 p 4 < 12 ∨ media.size - pos < media.get32 p 4 then
          jffs2ScanLoop media rounds scan₁ (pos + 4)
        else
          jffs2ScanNode media scan₁ pos (media.get32 p 4) (media.get16 p 2) >>= fun r =>
            jffs2ScanLoop media rounds r.1 (pos + u32 (media.get32 p 4 + 3) / 4 * 4) >>= fun rest =>
              done (r.2.toList ++ rest) := by
    intro rounds
    rw [jffs2ScanLoop, if_pos hin, hget, done_bind]
    dsimp only
    rw [hhas.field (Nat.le_refl 12) (by decide), done_bind, ← hp]
  rw [jffs2Step, jffs2Here, jffs2NodeLen, ← hp]
  by_cases hmagic : media.get16 p 0 ≠ 0x1985 ∨ media.get32 p 8 ≠ jffs2Crc (p.list 0 8)
  · refine ⟨scan₁, hhas.shows, fun rounds => ?_⟩
    rw [hround, if_pos hmagic,
      if_neg fun hall => hmagic.elim (fun hne => hne hall.1) fun hne => hne hall.2.1]
    exact hskip _
  have hvalid := hmagic
  rw [not_or, not_not, not_not] at hvalid
  by_cases hlen : media.get32 p 4 < 12 ∨ media.size - pos < media.get32 p 4
  · refine ⟨scan₁, hhas.shows, fun rounds => ?_⟩
    rw [hround, if_neg hmagic, if_pos hlen, if_neg fun hall => by omega]
    exact hskip _
  · obtain ⟨scan₂, hnode, hshows⟩ := @jffs2ScanNode_eq _ _ pos (media.get32 p 4) hread hhas.shows
      (by omega)
    rw [← hp] at hnode
    refine ⟨scan₂, hshows, fun rounds => ?_⟩
    rw [hround, if_neg hmagic, if_neg hlen, hnode, done_bind,
      if_pos ⟨hvalid.1, hvalid.2, by omega, by omega⟩]

theorem jffs2ScanLoop_end {rounds : ℕ} (hout : ¬ pos + 12 ≤ media.size) :
    jffs2ScanLoop media (rounds + 1) scan pos = done [] := if_neg hout

/-- The scan reads nothing outside its window, and fails at nothing. -/
theorem jffs2ScanLoop_runs (hread : media.Readable) (rounds : ℕ) (h : scan.Shows media) :
    jffs2ScanLoop media rounds scan pos = deep
      ∨ ∃ nodes, jffs2ScanLoop media rounds scan pos = done nodes := by
  induction rounds generalizing scan pos with
  | zero => exact .inl rfl
  | succ rounds ih =>
    by_cases hin : pos + 12 ≤ media.size
    · obtain ⟨scan', hshows, hstep⟩ := jffs2ScanLoop_step hread h hin
      rw [hstep]
      obtain hdeep | ⟨nodes, hnodes⟩ := @ih scan' (jffs2Step media pos) hshows
      · exact .inl (by rw [hdeep, deep_bind])
      · exact .inr ⟨_, by rw [hnodes, done_bind]⟩
    · exact .inr ⟨[], jffs2ScanLoop_end hin⟩

theorem jffs2Step_eq (hpos : pos % 4 = 0) (h : ∀ totlen ∈ jffs2NodeLen media pos, totlen ≤ 0xfffffffc) :
    jffs2Step media pos = jffs2Next media pos := by
  rw [jffs2Step, jffs2Next]
  cases hlen : jffs2NodeLen media pos with
  | none => rfl
  | some totlen =>
    have hle := h totlen hlen
    show pos + u32 (totlen + 3) / 4 * 4 = (pos + totlen + 3) / 4 * 4
    rw [u32_of_lt (by omega)]
    omega

theorem jffs2Next_mod (hpos : pos % 4 = 0) : jffs2Next media pos % 4 = 0 := by
  rw [jffs2Next]
  cases jffs2NodeLen media pos with
  | none =>
    show (pos + 4) % 4 = 0
    omega
  | some totlen => exact Nat.mul_mod_left _ 4

theorem Jffs2Met.mod (h : Jffs2Met media pos) : pos % 4 = 0 := by
  induction h with
  | start => rfl
  | next _ _ ih => exact jffs2Next_mod ih

/-- Where every length can be rounded up, the scan ends with the nodes of the walk. -/
theorem jffs2ScanLoop_walks (hread : media.Readable) (hrounds : Jffs2Rounds media)
    (h : scan.Shows media) (hmet : Jffs2Met media pos) :
    ∃ rounds, jffs2ScanLoop media rounds scan pos = done (jffs2Walk media pos) := by
  induction hk : media.size - pos using Nat.strongRecOn generalizing scan pos with
  | _ k ih =>
    subst hk
    rw [jffs2Walk]
    by_cases hin : pos + 12 ≤ media.size
    · have hlt := lt_jffs2Next media pos
      obtain ⟨scan', hshows, hstep⟩ := jffs2ScanLoop_step hread h hin
      obtain ⟨rounds, hrest⟩ := ih _ (by omega) hshows (hmet.next hin) rfl
      refine ⟨rounds + 1, ?_⟩
      rw [hstep, jffs2Step_eq hmet.mod (hrounds pos hmet hin), hrest, done_bind, if_pos hin]
    · exact ⟨1, by rw [jffs2ScanLoop_end hin, if_neg hin]⟩

/-- A scan that gets to a length which cannot be rounded up stays there. -/
theorem jffs2ScanLoop_stuck {totlen : ℕ} (hread : media.Readable) (hin : pos + 12 ≤ media.size)
    (hlen : jffs2NodeLen media pos = some totlen) (hlong : 0xfffffffc < totlen) (rounds : ℕ)
    (h : scan.Shows media) : jffs2ScanLoop media rounds scan pos = deep := by
  have hstay : jffs2Step media pos = pos := by
    obtain ⟨-, -, hlt⟩ := jffs2NodeLen_eq_some hlen
    rw [jffs2Step, hlen]
    show pos + u32 (totlen + 3) / 4 * 4 = pos
    rw [u32]
    omega
  induction rounds generalizing scan with
  | zero => rfl
  | succ rounds ih =>
    obtain ⟨scan', hshows, hstep⟩ := jffs2ScanLoop_step hread h hin
    rw [hstep, hstay, ih hshows, deep_bind]

/-- A scan that would not end from where the walk gets to does not end. -/
theorem Jffs2Met.deep (hread : media.Readable) (hmet : Jffs2Met media pos)
    (hdeep : ∀ rounds scan, scan.Shows media → jffs2ScanLoop media rounds scan pos = deep) :
    ∀ rounds scan, scan.Shows media → jffs2ScanLoop media rounds scan 0 = deep := by
  induction hmet with
  | start => exact hdeep
  | @next pos hmet hin ih =>
    refine ih fun rounds scan hshows => ?_
    by_cases hlong : ∃ totlen, jffs2NodeLen media pos = some totlen ∧ 0xfffffffc < totlen
    · obtain ⟨totlen, hlen, hlong⟩ := hlong
      exact jffs2ScanLoop_stuck hread hin hlen hlong rounds hshows
    · cases rounds with
      | zero => rfl
      | succ rounds =>
        obtain ⟨scan', hshows', hstep⟩ := jffs2ScanLoop_step hread hshows hin
        have hnext := jffs2Step_eq hmet.mod fun totlen hlen => Nat.not_lt.mp fun hlt =>
          hlong ⟨totlen, hlen, hlt⟩
        rw [hstep, hnext, hdeep rounds scan' hshows', deep_bind]

/-- The scan of a device reads nothing outside its window and fails at nothing, and it ends with the
nodes of the walk if and only if the length of each node that the walk meets can be rounded up in 32
bits. -/
theorem jffs2_scan_walks (bytes : Buf) (sectors : ℕ) (swap : Bool) :
    let media := Jffs2Media.ofDevice bytes sectors swap
    (∀ rounds, grubJffs2ScanMedia rounds media = deep
        ∨ ∃ nodes, grubJffs2ScanMedia rounds media = done nodes)
      ∧ ((∃ rounds, grubJffs2ScanMedia rounds media = done (jffs2Walk media 0))
        ↔ Jffs2Rounds media) := by
  have hread := Jffs2Media.readable bytes sectors swap
  have hempty : Jffs2Window.empty.Shows (.ofDevice bytes sectors swap) := .inl rfl
  refine ⟨fun rounds => jffs2ScanLoop_runs hread rounds hempty, ?_, fun hrounds =>
    jffs2ScanLoop_walks hread hrounds hempty .start⟩
  rintro ⟨rounds, hdone⟩ pos hmet hin totlen hlen
  by_contra hlong
  have hdeep := hmet.deep hread (fun rounds scan hshows => jffs2ScanLoop_stuck hread hin hlen
    (Nat.not_le.mp hlong) rounds hshows) rounds _ hempty
  rw [grubJffs2ScanMedia, hdeep] at hdone
  cases hdone

/-- A device of a little more than 4 GiB that begins with a node of almost 4 GiB. -/
def longNodeDevice : Jffs2Media :=
  .ofDevice (Buf.ofFields [(0, [0x85, 0x19, 0x03, 0x20, 0xff, 0xff, 0xff, 0xff, 0xea, 0x2f, 0x73, 0x70])])
    (2 ^ 23 + 1) false

theorem longNodeDevice_len : jffs2NodeLen longNodeDevice 0 = some 0xffffffff := by
  decide +kernel

/-- The scan of that device does not end. -/
theorem jffs2_scan_stuck :
    ¬ ∃ rounds nodes, grubJffs2ScanMedia rounds longNodeDevice = done nodes := by
  rintro ⟨rounds, nodes, hdone⟩
  have hdeep := @jffs2ScanLoop_stuck longNodeDevice .empty 0 _
    (Jffs2Media.readable _ _ _) (by decide) longNodeDevice_len (by decide) rounds (.inl rfl)
  rw [grubJffs2ScanMedia, hdeep] at hdone
  cases hdone

end FsRover
