import FsRover.Fs.BlockMap
import FsRover.Lib.Memory

/-!
# Files of an fbfs volume

An fbfs volume begins with a list of its files. A file in the primary area has 510 bytes in each of
its sectors, one behind that area has 512. `grub_fbfs_read` finds the sectors with 32-bit numbers and
a signed length of what it reads next, `grub_fbfs_map` finds them with 64-bit numbers.

## Main results

* `FsRover.fbfsFiles_ends` : the list is walked to its end or to an error, and nothing outside it is
  read.
* `FsRover.grubFbfsMap_good`, `FsRover.grubFbfsRead_eq` : what the two make of a file.
-/

namespace FsRover

open Outcome Memory

/-! ### The volume -/

def FB_MAGIC_LONG : ℕ := 0x46424246
def FB_AR_MAGIC_LONG : ℕ := 0x52414246

/-- The disk of a volume: its bytes, and the error of a read of so many bytes from an offset in a
sector on, if that read fails. -/
structure FbfsDisk where
  volume : Buf
  fails : ℕ → ℕ → ℕ → Option GrubError

/-- `grub_disk_read`. -/
def FbfsDisk.read (disk : FbfsDisk) (sector offset size : ℕ) : Except GrubError Buf :=
  match disk.fails sector offset size with
  | some e => .error e
  | none => .ok (disk.volume.from (512 * sector + offset))

/-- `struct grub_archelp_data` as it is after mounting; the memory is the `list_size` bytes of
`fb_list`. -/
structure FbfsData where
  nameOffset : ℕ
  ofs : ℕ
  priSize : ℕ
  fbList : Mem

/-- What `grub_fbfs_mount` takes from the first sectors: the fields of `struct fb_mbr`, and the
sector of `struct fb_data`. -/
structure FbfsHeader where
  ofs : ℕ
  bootBase : ℕ
  bootSize : ℕ
  priSize : ℕ
  data : Buf

/-- `grub_fbfs_mount` up to the version. -/
def fbfsHeader (disk : FbfsDisk) : Option FbfsHeader :=
  match disk.read 0 0 512 with
  | .error _ => none
  | .ok m =>
    if lostLe32 m 0 = FB_AR_MAGIC_LONG then some ⟨0, 0, 0, 0, m⟩
    else if lostLe32 m 0x1b4 ≠ FB_MAGIC_LONG ∨ lostLe16 m 0x1fe ≠ 0xaa55 then none
    else
      match disk.read (sub32 (lostLe16 m 0x1b2 + 1) (lostLe16 m 0x1ae)) 0 512 with
      | .error _ => none
      | .ok d => some ⟨lostLe16 m 0x1ae, lostLe16 m 0x1b2, lostLe16 d 0, lostLe16 d 0xa, d⟩

/-- The loop that drops the last two bytes of each sector of the list, from sector `i` on. -/
def fbfsCompact : ℕ → ℕ → Buf → Buf
  | _, 0, list => list
  | i, n + 1, list =>
    fbfsCompact (i + 1) n fun j =>
      if 510 * (i + 1) ≤ j ∧ j < 510 * (i + 1) + 510 then list (512 * (i + 1) + (j - 510 * (i + 1)))
      else list j

/-- `grub_fbfs_mount` where it does not fail. -/
def fbfsMounted (disk : FbfsDisk) : Option FbfsData :=
  match fbfsHeader disk with
  | none => none
  | some h =>
    let verMajor := byteAt h.data 4
    let verMinor := byteAt h.data 5
    let listUsed := lostLe16 h.data 6
    if verMajor ≠ 1 ∨ (verMinor ≠ 6 ∧ verMinor ≠ 7) then none
    else if listUsed = 0 then none
    else
      match disk.read (sub32 (h.bootBase + 1 + h.bootSize) h.ofs) 0 (listUsed * 512) with
      | .error _ => none
      | .ok list =>
        some {
          nameOffset := if verMinor = 6 then 0 else 4
          ofs := h.ofs
          priSize := h.priSize
          fbList := ⟨listUsed * 510, fbfsCompact 0 (listUsed - 1) list⟩ }

/-- `grub_fbfs_mount`. -/
def grubFbfsMount (disk : FbfsDisk) : Except GrubError FbfsData :=
  match fbfsMounted disk with
  | none => .error ⟨.badFs, "not a fb filesystem"⟩
  | some data => .ok data

/-! ### The list -/

/-- `p`, as its offset in the list, and `entry_offset`. -/
structure FbfsCursor where
  p : Option ℕ
  entryOffset : ℕ
  deriving DecidableEq

/-- `grub_fbfs_rewind`. -/
def grubFbfsRewind : FbfsCursor := ⟨none, 0⟩

/-- What `grub_fbfs_find_file` reports: the end, or a file with its name and `data_time`. -/
inductive FbfsFound
  | ended
  | file (name : List UInt8) (mtime : ℕ)
  deriving DecidableEq

/-- The loop over the `n` bytes of a name. -/
def fbfsName (list : Mem) : ℕ → ℕ → Outcome GrubError (List UInt8)
  | _, 0 => failed ⟨.badFs, "fbfs: unterminated file name"⟩
  | i, n + 1 => do
    let b ← list.get i
    if b = 0 then done []
    else do
      let name ← fbfsName list (i + 1) n
      done (b :: name)

/-- `grub_fbfs_find_file` from where `entry_offset` is known. -/
def fbfsFindAt (data : FbfsData) (entryOffset : ℕ) : Outcome GrubError (FbfsFound × FbfsCursor) :=
  if data.fbList.len ≤ entryOffset then failed ⟨.badFs, "fbfs: missing list terminator"⟩
  else do
    let size ← data.fbList.get entryOffset
    let c : FbfsCursor := ⟨some entryOffset, entryOffset⟩
    if size = 0 then done (.ended, c)
    else
      let entrySize := size.toNat + 2
      let nameOffset := 14 + data.nameOffset
      if data.fbList.len - entryOffset < entrySize ∨ entrySize ≤ nameOffset then
        failed ⟨.badFs, "fbfs: invalid file list entry"⟩
      else do
        let name ← fbfsName data.fbList (entryOffset + nameOffset) (entrySize - nameOffset)
        let time ← data.fbList.field (entryOffset + 10) 4
        done (.file name (lostLe32 time 0), c)

/-- `grub_fbfs_find_file`. -/
def grubFbfsFindFile (data : FbfsData) (c : FbfsCursor) :
    Outcome GrubError (FbfsFound × FbfsCursor) :=
  match c.p with
  | none => fbfsFindAt data 0
  | some p => do
    let size ← data.fbList.get p
    fbfsFindAt data (c.entryOffset + (size.toNat + 2))

/-- Calls of `grub_fbfs_find_file`, at most `rounds`, up to the end of the list: the offsets of the
files. -/
def fbfsFiles (data : FbfsData) : ℕ → FbfsCursor → Outcome GrubError (List ℕ)
  | 0, _ => deep
  | rounds + 1, c => do
    let (found, c) ← grubFbfsFindFile data c
    match found with
    | .ended => done []
    | .file _ _ => do
      let files ← fbfsFiles data rounds c
      done (c.p.toList ++ files)

/-- Where calls of `grub_fbfs_find_file` that report files get to. -/
inductive FbfsReached (data : FbfsData) : FbfsCursor → Prop
  | rewound : FbfsReached data grubFbfsRewind
  | next {c c' : FbfsCursor} {name : List UInt8} {mtime : ℕ} (h : FbfsReached data c)
    (hfile : grubFbfsFindFile data c = done (.file name mtime, c')) : FbfsReached data c'

/-! ### Files -/

/-- Fields of the entry at `p`. -/
def FbfsData.dataStart (data : FbfsData) (p : ℕ) : ℕ := lostLe32 data.fbList.byte (p + 2)
def FbfsData.dataSize (data : FbfsData) (p : ℕ) : ℕ := lostLe32 data.fbList.byte (p + 6)

/-- `n` of the loop of `grub_fbfs_read`, an `int`, as the 64 bits that it is extended to. -/
def fbfsChunk (ofs len : ℕ) : ℕ :=
  let n := if u32 len < 2 ^ 31 then u32 len else u32 len + (2 ^ 64 - 2 ^ 32)
  if 510 < u64 (ofs + n) then 510 - ofs else n

/-- The loop of `grub_fbfs_read`. -/
def fbfsReadLoop (disk : FbfsDisk) : ℕ → ℕ → ℕ → ℕ → Option (Except GrubError (List UInt8))
  | 0, _, _, _ => none
  | rounds + 1, sector, ofs, len =>
    if len = 0 then some (.ok [])
    else
      let n := fbfsChunk ofs len
      match disk.read sector ofs n with
      | .error e => some (.error e)
      | .ok buf =>
        match fbfsReadLoop disk rounds (add32 sector 1) 0 (sub64 len n) with
        | none => none
        | some (.error e) => some (.error e)
        | some (.ok rest) => some (.ok (buf.list 0 n ++ rest))

/-- `grub_fbfs_read` of `len` bytes at `offset`. -/
def grubFbfsRead (rounds : ℕ) (disk : FbfsDisk) (data : FbfsData) (p offset len : ℕ) :
    Option (Except GrubError (List UInt8)) :=
  if data.priSize ≤ data.dataStart p then
    match disk.read (sub32 (data.dataStart p) data.ofs) offset len with
    | .error e => some (.error e)
    | .ok buf => some (.ok (buf.list 0 len))
  else
    fbfsReadLoop disk rounds (sub32 (data.dataStart p + u32 offset / 510) data.ofs)
      (u32 offset % 510) len

/-- The loop of `grub_fbfs_map`. -/
def fbfsMapLoop (base stop pos : ℕ) (ctx : FileMapContext) : Except GrubError FileMapContext :=
  if _h : pos < stop then
    let n := min (510 - pos % 510) (stop - pos)
    match grubFileMapSimple ctx pos n GRUB_FILE_MAP_DIRECT (base + pos / 510 * 512 + pos % 510) with
    | .error e => .error e
    | .ok ctx => fbfsMapLoop base stop (pos + n) ctx
  else .ok ctx
termination_by stop - pos

/-- `grub_fbfs_map`. -/
def grubFbfsMap (data : FbfsData) (p : ℕ) (ctx : FileMapContext) :
    Except GrubError FileMapContext :=
  if data.dataStart p < data.ofs then .error ⟨.badFs, "invalid fbfs data start"⟩
  else
    let base := (data.dataStart p - data.ofs) * 512
    if data.priSize ≤ data.dataStart p then
      grubFileMapSimple ctx 0 (data.dataSize p) GRUB_FILE_MAP_DIRECT base
    else fbfsMapLoop base ctx.stop ctx.start ctx

/-! ### The list is walked -/

variable {data : FbfsData} {disk : FbfsDisk}

theorem fbfsName_ends {list : Mem} {i n : ℕ} (h : i + n ≤ list.len) :
    (fbfsName list i n).Ends fun _ => True := by
  induction n generalizing i with
  | zero => trivial
  | succ n ih =>
    rw [fbfsName, get_of_lt (by omega), done_bind]
    split_ifs
    · trivial
    · exact Ends.bind (ih (by omega)) fun _ _ => trivial

theorem fbfsFindAt_ends (data : FbfsData) (entryOffset : ℕ) :
    (fbfsFindAt data entryOffset).Ends fun r =>
      r.2 = ⟨some entryOffset, entryOffset⟩ ∧ entryOffset < data.fbList.len
        ∧ (r.1 ≠ .ended → entryOffset + 14 ≤ data.fbList.len) := by
  rw [fbfsFindAt]
  by_cases hout : data.fbList.len ≤ entryOffset
  · rw [if_pos hout]
    trivial
  rw [if_neg hout, get_of_lt (by omega), done_bind]
  dsimp only
  split_ifs with hzero hinvalid
  · exact ⟨rfl, by omega, fun hne => absurd rfl hne⟩
  · trivial
  · refine Ends.bind (fbfsName_ends (by omega)) fun name _ => ?_
    rw [field_of_le (by omega), done_bind]
    exact ⟨rfl, by omega, fun _ => by omega⟩

/-- A cursor as `grub_fbfs_find_file` leaves it. -/
def FbfsCursor.Inside (data : FbfsData) (c : FbfsCursor) : Prop :=
  ∀ p ∈ c.p, p = c.entryOffset ∧ p < data.fbList.len

/-- The first offset that a cursor has not seen. -/
def FbfsCursor.rank (c : FbfsCursor) : ℕ := c.p.elim 0 fun p => p + 1

theorem grubFbfsFindFile_ends {c : FbfsCursor} (h : c.Inside data) :
    (grubFbfsFindFile data c).Ends fun r =>
      r.2.Inside data ∧ c.rank < r.2.rank ∧ r.2.rank ≤ data.fbList.len
        ∧ (r.1 ≠ .ended → ∀ p ∈ r.2.p, p + 14 ≤ data.fbList.len) := by
  obtain ⟨p, entryOffset⟩ := c
  have hfind : ∀ e, FbfsCursor.rank ⟨p, entryOffset⟩ ≤ e → (fbfsFindAt data e).Ends fun r =>
      r.2.Inside data ∧ FbfsCursor.rank ⟨p, entryOffset⟩ < r.2.rank
        ∧ r.2.rank ≤ data.fbList.len
        ∧ (r.1 ≠ .ended → ∀ p ∈ r.2.p, p + 14 ≤ data.fbList.len) := fun e he =>
    (fbfsFindAt_ends data e).mono fun r hr => by
      obtain ⟨found, c⟩ := r
      obtain ⟨rfl, hlt, hentry⟩ := hr
      refine ⟨fun p hp => ?_, Nat.lt_succ_of_le he, hlt, fun hne p hp => ?_⟩
      · obtain rfl := Option.some.inj hp
        exact ⟨rfl, hlt⟩
      · obtain rfl := Option.some.inj hp
        exact hentry hne
  cases p with
  | none => exact hfind 0 (Nat.le_refl 0)
  | some p =>
    obtain ⟨rfl, hlt⟩ := h p rfl
    rw [grubFbfsFindFile]
    dsimp only
    rw [get_of_lt hlt, done_bind]
    refine hfind _ ?_
    show p + 1 ≤ _
    omega

/-- Calls of `grub_fbfs_find_file` come to the end of the list or to an error, and read nothing
outside it. -/
theorem fbfsFiles_ends {rounds : ℕ} {c : FbfsCursor} (hc : c.Inside data)
    (hrounds : data.fbList.len < rounds + c.rank) :
    (fbfsFiles data rounds c).Ends fun files => ∀ p ∈ files, p < data.fbList.len := by
  induction rounds generalizing c with
  | zero =>
    have hrank : c.rank ≤ data.fbList.len := by
      obtain ⟨p, entryOffset⟩ := c
      cases p with
      | none => exact Nat.zero_le _
      | some p => exact (hc p rfl).2
    omega
  | succ rounds ih =>
    rw [fbfsFiles]
    refine (grubFbfsFindFile_ends hc).bind fun r hr => ?_
    obtain ⟨found, c'⟩ := r
    obtain ⟨hin, hlow, -, -⟩ := hr
    cases found with
    | ended => exact fun p hp => by cases hp
    | file name mtime =>
      have hlow : c.rank < c'.rank := hlow
      refine (ih hin (by omega)).bind fun files hfiles => ?_
      intro p hp
      rcases List.mem_append.mp hp with hp | hp
      · exact (hin p (Option.mem_toList.mp hp)).2
      · exact hfiles p hp

theorem FbfsReached.inside {c : FbfsCursor} (h : FbfsReached data c) : c.Inside data := by
  induction h with
  | rewound => exact fun p hp => by cases hp
  | next _ hfile ih =>
    have hends := grubFbfsFindFile_ends ih
    rw [hfile] at hends
    exact hends.1

theorem FbfsReached.entry_le {c : FbfsCursor} (h : FbfsReached data c) :
    ∀ p ∈ c.p, p + 14 ≤ data.fbList.len := by
  cases h with
  | rewound => exact fun p hp => by cases hp
  | next h hfile =>
    have hends := grubFbfsFindFile_ends h.inside
    rw [hfile] at hends
    exact hends.2.2.2 fun heq => by cases heq

/-! ### The map -/

/-- The byte at `i` of a file in the primary area whose first sector is at `base`. -/
def fbfsPrimary (volume : Buf) (base : ℕ) : Buf := fun i =>
  volume (base + i / 510 * 512 + i % 510)

/-- A direct extent from `pos` on, of a file that is there on the volume. -/
theorem FileMapGood.along {volume val : Buf} {ctx ctx' : FileMapContext} {pos n physical : ℕ}
    (h : FileMapGood volume val ctx)
    (hsimple : grubFileMapSimple ctx pos n GRUB_FILE_MAP_DIRECT physical = .ok ctx')
    (hval : ∀ d < n, val (pos + d) = volume (physical + d)) :
    FileMapGood volume val ctx' ∧ ctx.Same ctx' := by
  refine h.emit hsimple fun i hi hi' _ => ⟨fun _ => ⟨_, rfl, ?_⟩, fun hzero => ?_⟩
  · have hi : pos ≤ i := hi
    have hi' : i < pos + n := hi'
    have hd := hval (i - pos) (by omega)
    rw [Nat.add_sub_cancel' hi] at hd
    exact hd
  · have hnot : GRUB_FILE_MAP_DIRECT &&& GRUB_FILE_MAP_ZERO = 0 := by decide
    exact absurd hnot (of_decide_eq_true hzero)

/-- Inside a sector of the primary area the file is there as it is. -/
theorem fbfsPrimary_add {volume : Buf} {base pos d : ℕ} (h : pos % 510 + d < 510) :
    fbfsPrimary volume base (pos + d) = volume (base + pos / 510 * 512 + pos % 510 + d) := by
  obtain ⟨hdiv, hmod⟩ := div_mod_add_of_lt h
  rw [fbfsPrimary, hdiv, hmod, Nat.add_assoc _ (pos % 510)]

theorem fbfsMapLoop_good {volume : Buf} {base stop pos : ℕ} {ctx ctx' : FileMapContext}
    (h : FileMapGood volume (fbfsPrimary volume base) ctx)
    (hrun : fbfsMapLoop base stop pos ctx = .ok ctx') :
    FileMapGood volume (fbfsPrimary volume base) ctx' ∧ ctx.Same ctx' := by
  induction hk : stop - pos using Nat.strongRecOn generalizing pos ctx with
  | _ k ih =>
    subst hk
    rw [fbfsMapLoop] at hrun
    split_ifs at hrun with hpos
    · dsimp only at hrun
      cases hsimple : grubFileMapSimple ctx pos (min (510 - pos % 510) (stop - pos))
          GRUB_FILE_MAP_DIRECT (base + pos / 510 * 512 + pos % 510) with
      | error e =>
        rw [hsimple] at hrun
        cases hrun
      | ok ctx₁ =>
        rw [hsimple] at hrun
        obtain ⟨hgood, hsame⟩ := h.along hsimple fun d hd => fbfsPrimary_add (by omega)
        have hmod : pos % 510 < 510 := Nat.mod_lt _ (by decide)
        obtain ⟨hgood', hsame'⟩ := ih _ (by omega) hgood hrun rfl
        exact ⟨hgood', hsame.trans hsame'⟩
    · obtain rfl := Except.ok.inj hrun
      exact ⟨h, .refl ctx⟩

/-- The byte at `i` of the file at `p`. -/
def fbfsByte (volume : Buf) (data : FbfsData) (p : ℕ) : Buf :=
  if data.priSize ≤ data.dataStart p then volume.from ((data.dataStart p - data.ofs) * 512)
  else fbfsPrimary volume ((data.dataStart p - data.ofs) * 512)

/-- The driver maps a file that does not start before the volume, and hands over what it is. -/
theorem grubFbfsMap_good {volume : Buf} {p : ℕ} {ctx ctx' : FileMapContext}
    (h : FileMapGood volume (fbfsByte volume data p) ctx)
    (hrun : grubFbfsMap data p ctx = .ok ctx') :
    data.ofs ≤ data.dataStart p ∧ FileMapGood volume (fbfsByte volume data p) ctx'
      ∧ ctx.Same ctx' := by
  rw [grubFbfsMap] at hrun
  split_ifs at hrun with hbefore hpri
  · refine ⟨by omega, h.along hrun fun d _ => ?_⟩
    rw [fbfsByte, if_pos hpri, Buf.from_apply, Nat.zero_add]
  · rw [fbfsByte, if_neg hpri] at h ⊢
    exact ⟨by omega, fbfsMapLoop_good h hrun⟩

/-! ### Reading -/

/-- The signed length does no harm while the offsets of the file stay below 2^32. -/
theorem fbfsChunk_eq {ofs len : ℕ} (hofs : ofs < 510) (hlen : ofs + len < 2 ^ 32) :
    fbfsChunk ofs len = min (510 - ofs) len := by
  rw [fbfsChunk, u32_of_lt (by omega)]
  unfold u64
  split_ifs <;> omega

theorem list_from_eq {volume val : Buf} {physical pos n : ℕ}
    (h : ∀ d < n, val (pos + d) = volume (physical + d)) :
    (volume.from physical).list 0 n = (List.range' pos n).map val := by
  rw [Buf.list_from]
  refine List.ext_getElem (by simp) fun d hd _ => ?_
  rw [Buf.getElem_list, List.getElem_map, List.getElem_range', Nat.one_mul]
  exact (h d (by rwa [Buf.length_list] at hd)).symm

/-- The loop of `grub_fbfs_read` ends, and gives the bytes of the file if it begins in the sector
where they are. -/
theorem fbfsReadLoop_spec {s pos len rounds sector ofs : ℕ} (hrounds : len < rounds)
    (hofs : 0 < len → ofs = pos % 510) (hpos : pos + len < 2 ^ 32) :
    ∃ r, fbfsReadLoop disk rounds sector ofs len = some r
      ∧ ((∀ sector offset n, disk.fails sector offset n = none) →
        s + (pos + len) / 510 < 2 ^ 32 → (0 < len → sector = s + pos / 510) →
        r = .ok ((List.range' pos len).map (fbfsPrimary disk.volume (s * 512)))) := by
  induction rounds generalizing pos len sector ofs with
  | zero => omega
  | succ rounds ih =>
    rw [fbfsReadLoop]
    by_cases hlen : len = 0
    · subst hlen
      exact ⟨_, if_pos rfl, fun _ _ _ => rfl⟩
    obtain rfl := hofs (by omega)
    have hmod : pos % 510 < 510 := Nat.mod_lt _ (by decide)
    have hdiv := Nat.div_add_mod pos 510
    rw [if_neg hlen, fbfsChunk_eq hmod (by omega)]
    obtain ⟨n, hn⟩ : ∃ n, n = min (510 - pos % 510) len := ⟨_, rfl⟩
    dsimp only
    rw [← hn, FbfsDisk.read]
    cases hfails : disk.fails sector (pos % 510) n with
    | some e => exact ⟨_, rfl, fun hdev => by rw [hdev] at hfails; cases hfails⟩
    | none =>
      rw [@sub64_of_le len n (by omega) (by omega)]
      have hend : pos + n + (len - n) = pos + len := by omega
      -- a further round begins at the start of the next sector
      have hnext : 0 < len - n → 0 = (pos + n) % 510 ∧ (pos + n) / 510 = pos / 510 + 1 := by omega
      obtain ⟨r, hr, hval⟩ := @ih (pos + n) (len - n) (add32 sector 1) 0 (by omega)
        (fun h => (hnext h).1) (by omega)
      dsimp only
      rw [hr]
      cases r with
      | error e =>
        refine ⟨_, rfl, fun hdev hlast hsector => ?_⟩
        obtain rfl := hsector (by omega)
        have hle : (pos + n) / 510 ≤ (pos + len) / 510 := Nat.div_le_div_right (by omega)
        cases hval hdev (by rwa [hend]) fun h => by
          have hdiv' := (hnext h).2
          rw [add32]
          omega
      | ok rest =>
        refine ⟨_, rfl, fun hdev hlast hsector => ?_⟩
        obtain rfl := hsector (by omega)
        have hle : (pos + n) / 510 ≤ (pos + len) / 510 := Nat.div_le_div_right (by omega)
        have hrest := Except.ok.inj (hval hdev (by rwa [hend]) fun h => by
          have hdiv' := (hnext h).2
          rw [add32]
          omega)
        have hhere : (disk.volume.from (512 * (s + pos / 510) + pos % 510)).list 0 n
            = (List.range' pos n).map (fbfsPrimary disk.volume (s * 512)) :=
          list_from_eq fun d hd => by
            rw [fbfsPrimary_add (by omega)]
            refine congrArg disk.volume ?_
            omega
        rw [hrest, hhere, ← List.map_append, List.range'_append_1, Nat.add_sub_cancel' (by omega)]

/-- `grub_fbfs_read` inside a file ends, and gives the bytes of the file if it does not start before
the volume. -/
theorem grubFbfsRead_eq {p pos len rounds : ℕ} (hpri : data.priSize < 2 ^ 16)
    (hin : pos + len ≤ data.dataSize p) (hrounds : data.dataSize p < rounds) :
    ∃ r, grubFbfsRead rounds disk data p pos len = some r
      ∧ ((∀ sector offset n, disk.fails sector offset n = none) →
        data.ofs ≤ data.dataStart p →
        r = .ok ((List.range' pos len).map (fbfsByte disk.volume data p))) := by
  have hsize : data.dataSize p < 2 ^ 32 := lostLe32_lt _ _
  have hstart : data.dataStart p < 2 ^ 32 := lostLe32_lt _ _
  rw [grubFbfsRead, fbfsByte, u32_of_lt (by omega)]
  by_cases hbehind : data.priSize ≤ data.dataStart p
  · rw [if_pos hbehind, if_pos hbehind, FbfsDisk.read]
    cases hfails : disk.fails (sub32 (data.dataStart p) data.ofs) pos len with
    | some e => exact ⟨_, rfl, fun hdev => by rw [hdev] at hfails; cases hfails⟩
    | none =>
      refine ⟨_, rfl, fun _ hofs => congrArg Except.ok (list_from_eq fun d _ => ?_)⟩
      rw [sub32_of_le hofs hstart, Buf.from_apply, Nat.mul_comm 512, Nat.add_assoc]
  · rw [if_neg hbehind, if_neg hbehind]
    obtain ⟨r, hr, hval⟩ := @fbfsReadLoop_spec disk (data.dataStart p - data.ofs) pos len rounds
      (sub32 (data.dataStart p + pos / 510) data.ofs) (pos % 510) (by omega) (fun _ => rfl)
      (by omega)
    refine ⟨r, hr, fun hdev hofs => hval hdev ?_ fun _ => ?_⟩
    · have hdiv : (pos + len) / 510 ≤ 2 ^ 32 / 510 := Nat.div_le_div_right (by omega)
      omega
    · have hdiv : pos / 510 ≤ 2 ^ 32 / 510 := Nat.div_le_div_right (by omega)
      rw [sub32_of_le (by omega) (by omega)]
      omega

theorem grubFbfsRead_zero {p pos rounds : ℕ} (hrounds : 0 < rounds)
    (hdev : ∀ sector offset n, disk.fails sector offset n = none) :
    grubFbfsRead rounds disk data p pos 0 = some (.ok []) := by
  obtain ⟨rounds, rfl⟩ := Nat.exists_eq_add_of_lt hrounds
  rw [grubFbfsRead, FbfsDisk.read, hdev, Nat.zero_add, fbfsReadLoop, if_pos rfl]
  split_ifs <;> rfl

/-! ### Both -/

theorem fbfsHeader_lt {h : FbfsHeader} (hheader : fbfsHeader disk = some h) : h.priSize < 2 ^ 16 := by
  rw [fbfsHeader] at hheader
  cases hm : disk.read 0 0 512 with
  | error e =>
    rw [hm] at hheader
    cases hheader
  | ok m =>
    rw [hm] at hheader
    dsimp only at hheader
    split_ifs at hheader
    · obtain rfl := Option.some.inj hheader
      exact Nat.two_pow_pos 16
    · cases hd : disk.read (sub32 (lostLe16 m 0x1b2 + 1) (lostLe16 m 0x1ae)) 0 512 with
      | error e =>
        rw [hd] at hheader
        cases hheader
      | ok d =>
        rw [hd] at hheader
        obtain rfl := Option.some.inj hheader
        exact lostLe16_lt _ _

theorem grubFbfsMount_lt (hmount : grubFbfsMount disk = .ok data) : data.priSize < 2 ^ 16 := by
  rw [grubFbfsMount] at hmount
  cases hmounted : fbfsMounted disk with
  | none =>
    rw [hmounted] at hmount
    cases hmount
  | some data' =>
    rw [hmounted] at hmount
    obtain rfl := Except.ok.inj hmount
    rw [fbfsMounted] at hmounted
    cases hheader : fbfsHeader disk with
    | none =>
      rw [hheader] at hmounted
      cases hmounted
    | some h =>
      rw [hheader] at hmounted
      dsimp only at hmounted
      split_ifs at hmounted
      all_goals
        cases hlist : disk.read (sub32 (h.bootBase + 1 + h.bootSize) h.ofs) 0
          (lostLe16 h.data 6 * 512) with
        | error e =>
          rw [hlist] at hmounted
          cases hmounted
        | ok list =>
          rw [hlist] at hmounted
          obtain rfl := Option.some.inj hmounted
          exact fbfsHeader_lt hheader

/-- What is true of a volume that is mounted: its list is walked to the end or to an error, inside the
list; a read inside one of its files ends; and on a device that does not fail the file is read as it
is mapped. -/
theorem fbfs_agrees (hmount : grubFbfsMount disk = .ok data) :
    (∀ rounds, data.fbList.len < rounds →
      (fbfsFiles data rounds grubFbfsRewind).Ends fun files => ∀ p ∈ files, p < data.fbList.len)
    ∧ ∀ c, FbfsReached data c → ∀ p ∈ c.p, p + 14 ≤ data.fbList.len
      ∧ ∀ rounds, data.dataSize p < rounds →
        (∀ pos len, pos + len ≤ data.dataSize p →
          (grubFbfsRead rounds disk data p pos len).isSome)
        ∧ ((∀ sector offset n, disk.fails sector offset n = none) → ∀ range,
          MapAgrees disk.volume range (data.dataSize p) (grubFbfsMap data p)
            (grubFbfsRead rounds disk data p)) := by
  have hpri := grubFbfsMount_lt hmount
  refine ⟨fun rounds hrounds => fbfsFiles_ends (fun p hp => by cases hp) hrounds,
    fun c hc p hp => ⟨hc.entry_le p hp, fun rounds hrounds => ?_⟩⟩
  have hhalts : ∀ pos len, pos + len ≤ data.dataSize p →
      (grubFbfsRead rounds disk data p pos len).isSome := fun pos len hin => by
    obtain ⟨r, hr, -⟩ := @grubFbfsRead_eq _ disk _ _ _ _ hpri hin hrounds
    rw [hr]
    rfl
  refine ⟨hhalts, fun hdev range => ⟨hhalts, fun extents hmap => ?_⟩⟩
  refine ⟨fbfsByte disk.volume data p, grubFileMapRange_shows (fun ctx ctx' hgood _ _ hrun =>
    (grubFbfsMap_good hgood hrun).2) (Nat.le_refl _) hmap, fun pos len hin => ?_⟩
  obtain ⟨hzero, -⟩ | ⟨ctx, hpos, hrun, -, -⟩ := grubFileMapRange_run (Nat.le_refl _) hmap
  · obtain rfl : len = 0 := by omega
    exact grubFbfsRead_zero (by omega) hdev
  · have hofs : data.ofs ≤ data.dataStart p := by
      rw [grubFbfsMap] at hrun
      split_ifs at hrun with hbefore <;> omega
    obtain ⟨r, hr, hval⟩ := @grubFbfsRead_eq _ disk _ _ _ _ hpri hin hrounds
    rw [hr, hval hdev hofs]

/-- A volume of one sector of list, with a file of three bytes in its third sector. -/
def smallFbfs : FbfsDisk where
  volume := Buf.ofFields [(0, [0x46, 0x42, 0x41, 0x52, 1, 6, 1, 0]),
    (512, [14, 0, 2, 0, 0, 0, 3, 0, 0, 0, 0, 0, 0, 0, 0x61, 0]), (1024, [1, 2, 3])]
  fails := fun _ _ _ => none

def smallFbfsData : FbfsData := ⟨0, 0, 0, ⟨510, smallFbfs.volume.from 512⟩⟩

theorem smallFbfs_mount : grubFbfsMount smallFbfs = .ok smallFbfsData := rfl

theorem smallFbfs_reached : FbfsReached smallFbfsData ⟨some 0, 0⟩ :=
  @FbfsReached.next _ _ _ [0x61] 0 .rewound (by decide +kernel)

theorem fbfs_agrees_small :
    ((fbfsFiles smallFbfsData 511 grubFbfsRewind).Ends fun files => ∀ p ∈ files, p < 510)
    ∧ MapAgrees smallFbfs.volume none (smallFbfsData.dataSize 0) (grubFbfsMap smallFbfsData 0)
      (grubFbfsRead 4 smallFbfs smallFbfsData 0) := by
  obtain ⟨hfiles, hfile⟩ := fbfs_agrees smallFbfs_mount
  obtain ⟨-, hagrees⟩ := hfile _ smallFbfs_reached 0 rfl
  exact ⟨hfiles 511 (Nat.lt_add_one _), (hagrees 4 (by decide)).2 (fun _ _ _ => rfl) none⟩

end FsRover
