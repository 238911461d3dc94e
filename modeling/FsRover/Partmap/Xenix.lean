import FsRover.Fs.DiskRange
import Mathlib.Data.Nat.Bitwise
import Mathlib.Order.Bounds.Basic

/-!
# Xenix divisions

A primary partition of type 2 can hold up to seven divisions. They lie behind an area that is reserved
for the system and for spare tracks; where it ends depends on the geometry of the disk, which
`xenix_partition_map_iterate` recovers from the entry of the partition in the master boot record.

## Main definitions

* `FsRover.PartDisk` : a disk with `disk->partition`.
* `FsRover.xenixReadTable`, `FsRover.xenixDivision` : the table and its entries.
* `FsRover.XenixReservedEnd` : the end of the reserved area, by what it is the least of.
-/

namespace FsRover

def XENIX_MSDOS_TYPE : ℕ := 0x02
def XENIX_DIVVY_SECTOR : ℕ := 42
def XENIX_BADTRK_SECTOR : ℕ := 44
def XENIX_SYSTEM_SECTORS : ℕ := 52
def XENIX_DIVVY_MAGIC : ℕ := 0x1234
def XENIX_BADTRK_MAGIC : ℕ := 0x4321
def XENIX_WHOLE_DIVISION : ℕ := 7
def XENIX_MAX_BAD_TRACKS : ℕ := 1023
def GRUB_PC_PARTITION_SIGNATURE : ℕ := 0xaa55

/-- `struct grub_partition` without its parent. `partmap` is the name of its map. -/
structure GrubPartition where
  number : ℕ := 0
  start : ℕ := 0
  len : ℕ := 0
  offset : ℕ := 0
  index : ℤ := 0
  partmap : String := ""
  msdostype : ℕ := 0
  deriving DecidableEq

/-- A disk with its bytes and the reads that fail. `partition` is `disk->partition`, with the
partitions around it behind it. -/
structure PartDisk where
  name : String
  logSectorSize : ℕ
  totalSectors : Option ℕ
  byte : Buf
  fails : ℕ → ℕ → Option GrubError
  partition : List GrubPartition

/-- `grub_disk_read` of `size` bytes from a sector on. -/
def PartDisk.read (disk : PartDisk) (sector size : ℕ) : Except GrubError Buf :=
  let range : FileMapDisk :=
    ⟨disk.partition.map fun p => (p.start, p.len), disk.logSectorSize, disk.totalSectors⟩
  match grubDiskAdjustRange disk.name range sector 0 size with
  | .error e => .error e
  | .ok (sector, offset) =>
    match disk.fails sector size with
    | some e => .error e
    | none => .ok (disk.byte.from (512 * sector + offset))

/-- `grub_errno` with its message. -/
inductive XenixError
  | badPartTable (message : String)
  | disk (e : GrubError)

/-- Computations over the disk, which they may leave changed where they fail. -/
abbrev XenixM := EStateM XenixError PartDisk

def xenixRead (sector size : ℕ) : XenixM Buf := fun disk =>
  match disk.read sector size with
  | .error e => .error (.disk e) disk
  | .ok p => .ok p disk

def xenixSetPartition (partition : List GrubPartition) : XenixM Unit := fun disk =>
  .ok () { disk with partition := partition }

def xenixRefuse (p : Prop) [Decidable p] (message : String) : XenixM Unit :=
  if p then throw (.badPartTable message) else pure ()

/-- `xenix_chs_matches`. -/
def xenixChsMatches (lba head sector cylinder heads sectors : ℕ) : Bool :=
  let track := lba / sectors
  head = track % heads && (sector &&& 63) = lba % sectors + 1
    && (cylinder ||| ((sector &&& 0xc0) <<< 2)) = ((track / heads) &&& 1023)

/-- The length of the reserved area. -/
def xenixReserved (start heads sectors aliases : ℕ) : ℕ :=
  let track := u64 (start + sectors - 1) / sectors
  let track := u64 (track + u32 (u32 (XENIX_SYSTEM_SECTORS + sectors - 1) / sectors + aliases))
  let dataStart := u64 (u64 (u64 (track + heads - 1) / heads * heads) * sectors)
  sub64 dataStart start

/-- What `xenix_partition_map_iterate` knows when it has accepted the reserved area and the whole
area. -/
structure XenixTable where
  label : Buf
  start : ℕ
  length : ℕ
  heads : ℕ
  sectors : ℕ
  aliases : ℕ

def XenixTable.reserved (t : XenixTable) : ℕ := xenixReserved t.start t.heads t.sectors t.aliases

/-- The block and the number of blocks of division `i`. -/
def XenixTable.entry (t : XenixTable) (i : ℕ) : ℕ × ℕ :=
  (lostLe32 t.label (2 + i * 8), lostLe32 t.label (6 + i * 8))

/-- The first half of `xenix_partition_map_iterate`, for a primary partition of the right type. -/
def xenixReadTable (parent : GrubPartition) : XenixM XenixTable := do
  let label ← xenixRead XENIX_DIVVY_SECTOR 66
  xenixRefuse (lostLe16 label 0 ≠ XENIX_DIVVY_MAGIC) "no xenix 2.2+ division table"
  let badtrk ← xenixRead XENIX_BADTRK_SECTOR 8
  let aliases := lostLe16 badtrk 2
  xenixRefuse (lostLe16 badtrk 0 ≠ XENIX_BADTRK_MAGIC ∨ XENIX_MAX_BAD_TRACKS < aliases)
    "invalid xenix bad-track table"
  xenixRefuse (lostLe16 badtrk 4 ≠ 0xffff ∨ lostLe16 badtrk 6 ≠ 0xffff)
    "xenix bad-track remapping is not supported"
  xenixSetPartition []
  let mbr ← xenixRead 0 512
  xenixSetPartition [parent]
  let entry := mbr.from (446 + 16 * parent.index.toNat)
  let start := lostLe32 entry 8
  let length := lostLe32 entry 12
  xenixRefuse (lostLe16 mbr 510 ≠ GRUB_PC_PARTITION_SIGNATURE ∨ byteAt entry 4 ≠ XENIX_MSDOS_TYPE
    ∨ start ≠ parent.start ∨ length ≠ parent.len) "inconsistent xenix outer partition"
  let heads := byteAt entry 5 + 1
  let sectors := byteAt entry 6 &&& 63
  xenixRefuse (sectors = 0
    ∨ xenixChsMatches start (byteAt entry 1) (byteAt entry 2) (byteAt entry 3) heads sectors = false
    ∨ xenixChsMatches (u64 (start + length + 2 ^ 64 - 1)) (byteAt entry 5) (byteAt entry 6)
      (byteAt entry 7) heads sectors = false) "inconsistent xenix CHS geometry"
  let t : XenixTable := ⟨label, start, length, heads, sectors, aliases⟩
  xenixRefuse (length ≤ t.reserved ∨ (t.entry XENIX_WHOLE_DIVISION).1 ≠ 0
    ∨ (t.entry XENIX_WHOLE_DIVISION).2 ≠ (length + 1) / 2) "invalid xenix reserved or whole area"
  pure t

/-- One round of the loop over the entries; an empty division is passed over. -/
def xenixDivision (t : XenixTable) (i : ℕ) : XenixM (Option GrubPartition) := do
  let off := (t.entry i).1
  let size := (t.entry i).2
  if size = 0 then pure none
  else do
    let start := u64 (t.reserved + off * 2)
    let len := size * 2
    xenixRefuse ((off ||| size) &&& 0x80000000 ≠ 0 ∨ t.length ≤ start ∨ t.length - start < len)
      "xenix division outside parent"
    pure (some { partmap := "xenix", number := i, offset := XENIX_DIVVY_SECTOR, index := 2 + i * 8,
                 start := start, len := len })

/-- The loop over these entries. -/
def xenixDivisions (t : XenixTable) : List ℕ → XenixM (List GrubPartition)
  | [] => pure []
  | i :: l => do
    let p ← xenixDivision t i
    let parts ← xenixDivisions t l
    pure (p.toList ++ parts)

section Iterate

variable {σ : Type} (hook : PartDisk → GrubPartition → σ → Bool × PartDisk × σ)

/-- The calls of the hook, until it says to stop; it may change the disk. -/
def xenixCallHook : List GrubPartition → PartDisk → σ → PartDisk × σ
  | [], disk, s => (disk, s)
  | p :: parts, disk, s =>
    match hook disk p s with
    | (true, disk, s) => (disk, s)
    | (false, disk, s) => xenixCallHook parts disk s

/-- The checks of `disk->partition` in front of all reads. -/
def xenixParent (disk : PartDisk) : Option GrubPartition :=
  match disk.partition with
  | [parent] =>
    if parent.offset ≠ 0 ∨ parent.partmap ≠ "msdos" ∨ parent.msdostype ≠ XENIX_MSDOS_TYPE
        ∨ parent.index < 0 ∨ 4 ≤ parent.index ∨ disk.logSectorSize ≠ 9
        ∨ parent.len < XENIX_SYSTEM_SECTORS then none
    else some parent
  | _ => none

/-- `xenix_partition_map_iterate`: its error, the disk and the data of the hook. -/
def xenixPartitionMapIterate (disk : PartDisk) (s : σ) : Option XenixError × PartDisk × σ :=
  match xenixParent disk with
  | none => (some (.badPartTable "not a xenix partition"), disk, s)
  | some parent =>
    match (xenixReadTable parent >>= fun t => xenixDivisions t (List.range XENIX_WHOLE_DIVISION)) disk with
    | .error e disk => (some e, { disk with partition := [parent] }, s)
    | .ok parts disk =>
      let r := xenixCallHook hook parts disk s
      (none, { r.1 with partition := [parent] }, r.2)

end Iterate

/-! ### The reserved area -/

/-- `stop` is the end of the reserved area of a partition from `start` on: the first cylinder boundary
that is not before the tracks of the system and the spare tracks, which begin at the first track
boundary of the partition. -/
def XenixReservedEnd (start heads sectors aliases stop : ℕ) : Prop :=
  ∃ first system, IsLeast {t | start ≤ t * sectors} first
    ∧ IsLeast {t | XENIX_SYSTEM_SECTORS ≤ t * sectors} system
    ∧ IsLeast {b | heads * sectors ∣ b ∧ (first + system + aliases) * sectors ≤ b} stop

/-- The least number of units that cover `n`. -/
theorem isLeast_units {n m : ℕ} (hm : 0 < m) : IsLeast {t | n ≤ t * m} ((n + m - 1) / m) := by
  have hdiv := Nat.div_add_mod (n + m - 1) m
  have hmod := Nat.mod_lt (n + m - 1) hm
  rw [Nat.mul_comm] at hdiv
  refine ⟨?_, fun t ht => ?_⟩
  · show n ≤ (n + m - 1) / m * m
    omega
  · have hlt : (n + m - 1) / m < t + 1 := by
      rw [Nat.div_lt_iff_lt_mul hm, Nat.succ_mul]
      have hle : n ≤ t * m := ht
      omega
    exact Nat.le_of_lt_succ hlt

/-- The first cylinder boundary that is not before a track. -/
theorem isLeast_cylinder {track heads sectors : ℕ} (hheads : 0 < heads) (hsectors : 0 < sectors) :
    IsLeast {b | heads * sectors ∣ b ∧ track * sectors ≤ b}
      ((track + heads - 1) / heads * heads * sectors) := by
  obtain ⟨hcover, hleast⟩ := isLeast_units (n := track) hheads
  refine ⟨⟨⟨(track + heads - 1) / heads, ?_⟩, Nat.mul_le_mul_right _ hcover⟩, ?_⟩
  · rw [Nat.mul_comm _ heads, Nat.mul_assoc, Nat.mul_assoc, Nat.mul_comm sectors]
  · rintro b ⟨⟨k, rfl⟩, hb⟩
    have htrack : track ≤ k * heads := by
      refine Nat.le_of_mul_le_mul_right (hb.trans (le_of_eq ?_)) hsectors
      rw [Nat.mul_comm k, Nat.mul_right_comm]
    have hle := Nat.mul_le_mul_right (heads * sectors) (hleast htrack)
    rwa [← Nat.mul_assoc, Nat.mul_comm k] at hle

theorem xenixReserved_exact {start heads sectors aliases : ℕ} (hstart : start < 2 ^ 32)
    (hheads : 0 < heads) (hheads' : heads ≤ 256) (hsectors : 0 < sectors) (hsectors' : sectors < 64)
    (haliases : aliases ≤ XENIX_MAX_BAD_TRACKS) : XenixReservedEnd start heads sectors aliases
      (start + xenixReserved start heads sectors aliases) := by
  rw [XENIX_MAX_BAD_TRACKS] at haliases
  have hfirst := isLeast_units (n := start) hsectors
  have hsystem := isLeast_units (n := XENIX_SYSTEM_SECTORS) hsectors
  generalize htrack : (start + sectors - 1) / sectors
    + ((XENIX_SYSTEM_SECTORS + sectors - 1) / sectors + aliases) = track
  have hfirst_le : (start + sectors - 1) / sectors ≤ start + sectors - 1 := Nat.div_le_self _ _
  have hsystem_le : (XENIX_SYSTEM_SECTORS + sectors - 1) / sectors ≤ XENIX_SYSTEM_SECTORS + sectors - 1 :=
    Nat.div_le_self _ _
  rw [XENIX_SYSTEM_SECTORS] at hsystem_le htrack
  have htrack_le : track < 2 ^ 33 := by omega
  have hcover := @isLeast_cylinder track heads sectors hheads hsectors
  have hcylinders : (track + heads - 1) / heads * heads ≤ track + heads - 1 := Nat.div_mul_le_self _ _
  have hproduct : (track + heads - 1) / heads * heads * sectors ≤ 2 ^ 34 * 64 :=
    Nat.mul_le_mul (by omega) (Nat.le_of_lt hsectors')
  have hstart_le : start ≤ (track + heads - 1) / heads * heads * sectors := by
    exact (hfirst.1.trans (Nat.mul_le_mul_right _ (htrack ▸ Nat.le_add_right _ _))).trans hcover.1.2
  have hreserved : start + xenixReserved start heads sectors aliases
      = (track + heads - 1) / heads * heads * sectors := by
    rw [xenixReserved, XENIX_SYSTEM_SECTORS]
    rw [u64_of_lt (n := start + sectors - 1) (by omega), u32_of_lt (n := 52 + sectors - 1) (by omega),
      u32_of_lt (n := (52 + sectors - 1) / sectors + aliases) (by omega), htrack,
      u64_of_lt (n := track) (by omega), u64_of_lt (n := track + heads - 1) (by omega),
      u64_of_lt (n := (track + heads - 1) / heads * heads) (by omega), u64_of_lt (by omega),
      sub64_of_le hstart_le (by omega)]
    omega
  refine ⟨_, _, hfirst, hsystem, ?_⟩
  rw [hreserved, Nat.add_assoc]
  rw [XENIX_SYSTEM_SECTORS, htrack]
  exact hcover

/-! ### The run -/

theorem xenixRead_bind_eq_ok {β : Type} {sector size : ℕ} {f : Buf → XenixM β} {d d' : PartDisk}
    {b : β} (h : (xenixRead sector size >>= f) d = .ok b d') :
    ∃ p, d.read sector size = .ok p ∧ f p d = .ok b d' := by
  change EStateM.bind _ _ _ = _ at h
  rw [EStateM.bind, xenixRead] at h
  cases hread : d.read sector size with
  | error e =>
    rw [hread] at h
    cases h
  | ok p =>
    rw [hread] at h
    exact ⟨p, rfl, h⟩

theorem xenixRefuse_bind_eq_ok {β : Type} {p : Prop} [Decidable p] {message : String}
    {f : Unit → XenixM β} {d d' : PartDisk} {b : β}
    (h : (xenixRefuse p message >>= f) d = .ok b d') : ¬ p ∧ f () d = .ok b d' := by
  rw [xenixRefuse] at h
  split_ifs at h with hp
  · cases h
  · exact ⟨hp, h⟩

/-- Entry `i` does not lie in the partition. -/
def XenixBadEntry (t : XenixTable) (i : ℕ) : Prop :=
  (t.entry i).2 ≠ 0 ∧ (2 ^ 31 ≤ (t.entry i).1 ∨ 2 ^ 31 ≤ (t.entry i).2
    ∨ t.length < t.reserved + (t.entry i).1 * 2 + (t.entry i).2 * 2)

/-- What is known of a table that has been accepted. -/
structure XenixAccepted (parent : GrubPartition) (t : XenixTable) : Prop where
  start : t.start = parent.start
  length : t.length = parent.len
  length_lt : t.length < 2 ^ 32
  reserved_lt : t.reserved < t.length
  reserved_end : XenixReservedEnd t.start t.heads t.sectors t.aliases (t.start + t.reserved)

theorem xenixReadTable_eq_ok {parent : GrubPartition} {d d' : PartDisk} {t : XenixTable}
    (hd : d.partition = [parent]) (h : xenixReadTable parent d = .ok t d') :
    d' = d ∧ XenixAccepted parent t := by
  rw [xenixReadTable] at h
  obtain ⟨label, -, h⟩ := xenixRead_bind_eq_ok h
  obtain ⟨-, h⟩ := xenixRefuse_bind_eq_ok h
  obtain ⟨badtrk, -, h⟩ := xenixRead_bind_eq_ok h
  obtain ⟨haliases, h⟩ := xenixRefuse_bind_eq_ok h
  obtain ⟨-, h⟩ := xenixRefuse_bind_eq_ok h
  -- the partition is set aside for one read
  change (xenixRead 0 512 >>= _) { d with partition := [] } = _ at h
  obtain ⟨mbr, -, h⟩ := xenixRead_bind_eq_ok h
  change (xenixRefuse _ _ >>= _) { d with partition := [parent] } = _ at h
  obtain ⟨houter, h⟩ := xenixRefuse_bind_eq_ok h
  obtain ⟨hgeometry, h⟩ := xenixRefuse_bind_eq_ok h
  obtain ⟨hwhole, h⟩ := xenixRefuse_bind_eq_ok h
  have hd' : { d with partition := [parent] } = d := by rw [← hd]
  rw [hd'] at h
  cases h
  simp only [not_or, not_not, ne_eq] at houter hgeometry hwhole haliases
  refine ⟨rfl, houter.2.2.1, houter.2.2.2, lostLe32_lt _ _, Nat.lt_of_not_le hwhole.1, ?_⟩
  have hheads := byteAt_lt (mbr.from (446 + 16 * parent.index.toNat)) 5
  have hsectors : byteAt (mbr.from (446 + 16 * parent.index.toNat)) 6 &&& 63 ≤ 63 := Nat.and_le_right
  have hpos : 0 < byteAt (mbr.from (446 + 16 * parent.index.toNat)) 6 &&& 63 :=
    Nat.pos_of_ne_zero hgeometry.1
  exact xenixReserved_exact (lostLe32_lt _ _) (Nat.succ_pos _) (Nat.succ_le_of_lt hheads) hpos
    (Nat.lt_succ_of_le hsectors) (Nat.le_of_not_lt haliases.2)

/-- Both halves of `off | size` have the top bit clear. -/
theorem or_and_top {a b : ℕ} (ha : a < 2 ^ 32) (hb : b < 2 ^ 32) :
    (a ||| b) &&& 0x80000000 = 0 ↔ a < 2 ^ 31 ∧ b < 2 ^ 31 := by
  have htop : ∀ n : ℕ, n < 2 ^ 32 → (n &&& 0x80000000 = 0 ↔ n < 2 ^ 31) := by
    intro n hn
    have hbit : n.testBit 31 = decide (2 ^ 31 ≤ n) := by
      rw [Nat.testBit_eq_decide_div_mod_eq]
      exact decide_eq_decide.mpr (by omega)
    rw [show (0x80000000 : ℕ) = 2 ^ 31 from rfl, Nat.and_two_pow, hbit, ← Nat.not_le]
    simp
  rw [htop _ (Nat.or_lt_two_pow ha hb)]
  constructor
  · intro h
    exact ⟨lt_of_le_of_lt Nat.left_le_or h, lt_of_le_of_lt Nat.right_le_or h⟩
  · rintro ⟨ha', hb'⟩
    exact Nat.or_lt_two_pow ha' hb'

/-- A division as it is handed to the hook: entry `i`, behind the reserved area. -/
def xenixPart (t : XenixTable) (i : ℕ) : GrubPartition where
  partmap := "xenix"
  number := i
  offset := XENIX_DIVVY_SECTOR
  index := 2 + i * 8
  start := t.reserved + (t.entry i).1 * 2
  len := (t.entry i).2 * 2

variable {parent : GrubPartition} {t : XenixTable}

theorem xenixDivision_eq_ok {i : ℕ} {d d' : PartDisk} {p : Option GrubPartition}
    (ht : XenixAccepted parent t)
    (h : xenixDivision t i d = .ok p d') :
    d' = d ∧ ¬ XenixBadEntry t i ∧ p = if (t.entry i).2 = 0 then none else some (xenixPart t i) := by
  have hreserved := ht.reserved_lt
  have hlength := ht.length_lt
  rw [xenixDivision] at h
  by_cases hsize : (t.entry i).2 = 0
  · rw [if_pos hsize] at h ⊢
    cases h
    exact ⟨rfl, (fun hbad => hbad.1 hsize), rfl⟩
  · rw [if_neg hsize] at h ⊢
    obtain ⟨hok, h⟩ := xenixRefuse_bind_eq_ok h
    have hoff : (t.entry i).1 < 2 ^ 32 := lostLe32_lt _ _
    have hstart : u64 (t.reserved + (t.entry i).1 * 2) = t.reserved + (t.entry i).1 * 2 :=
      u64_of_lt (by omega)
    rw [hstart] at h hok
    simp only [not_or, not_not, ne_eq] at hok
    obtain ⟨htop, hbefore, hfits⟩ := hok
    obtain ⟨hoff', hsize'⟩ := (or_and_top hoff (lostLe32_lt _ _)).mp htop
    cases h
    refine ⟨rfl, fun hbad => ?_, rfl⟩
    have hout := hbad.2
    omega

/-- The divisions that are exposed, in the order of the entries. -/
def xenixParts (t : XenixTable) (l : List ℕ) : List GrubPartition :=
  (l.filter fun i => (t.entry i).2 ≠ 0).map (xenixPart t)

/-- All entries are looked at before any division is exposed. -/
theorem xenixDivisions_eq_ok {l : List ℕ} {d d' : PartDisk} {parts : List GrubPartition}
    (ht : XenixAccepted parent t)
    (h : xenixDivisions t l d = .ok parts d') :
    d' = d ∧ (∀ i ∈ l, ¬ XenixBadEntry t i) ∧ parts = xenixParts t l := by
  induction l generalizing parts d' with
  | nil =>
    cases h
    exact ⟨rfl, (fun _ hi => by cases hi), rfl⟩
  | cons i l ih =>
    change EStateM.bind _ _ _ = _ at h
    rw [EStateM.bind] at h
    cases hp : xenixDivision t i d with
    | error e d₁ =>
      rw [hp] at h
      cases h
    | ok p d₁ =>
      obtain ⟨rfl, hgood, rfl⟩ := xenixDivision_eq_ok ht hp
      rw [hp] at h
      change EStateM.bind _ _ _ = _ at h
      rw [EStateM.bind] at h
      cases hparts : xenixDivisions t l d₁ with
      | error e d₂ =>
        rw [hparts] at h
        cases h
      | ok parts' d₂ =>
        obtain ⟨rfl, hrest, rfl⟩ := ih hparts
        rw [hparts] at h
        cases h
        refine ⟨rfl, List.forall_mem_cons.mpr ⟨hgood, hrest⟩, ?_⟩
        rw [xenixParts, xenixParts, List.filter_cons]
        by_cases hsize : (t.entry i).2 = 0
        · rw [if_pos hsize, if_neg (by simpa using hsize)]
          rfl
        · rw [if_neg hsize, if_pos (by simpa using hsize)]
          rfl

/-- A division that is exposed lies in the partition, behind the reserved area. -/
theorem xenixPart_inside {i : ℕ} (ht : XenixAccepted parent t) (hgood : ¬ XenixBadEntry t i)
    (hsize : (t.entry i).2 ≠ 0) : 0 < (xenixPart t i).len
      ∧ t.start + t.reserved ≤ parent.start + (xenixPart t i).start
      ∧ (xenixPart t i).start + (xenixPart t i).len ≤ parent.len := by
  have hbad : ¬ (2 ^ 31 ≤ (t.entry i).1 ∨ 2 ^ 31 ≤ (t.entry i).2
      ∨ t.length < t.reserved + (t.entry i).1 * 2 + (t.entry i).2 * 2) := fun h => hgood ⟨hsize, h⟩
  have hstart := ht.start
  have hlength := ht.length
  simp only [xenixPart]
  omega

/-- What a call of `xenix_partition_map_iterate` does. -/
structure XenixExact {σ : Type} (hook : PartDisk → GrubPartition → σ → Bool × PartDisk × σ)
    (disk : PartDisk) (s : σ) : Prop where
  restored : (xenixPartitionMapIterate hook disk s).2.1.partition = disk.partition
  bad : ∀ parent t i, disk.partition = [parent] → xenixReadTable parent disk = .ok t disk →
    i < XENIX_WHOLE_DIVISION → XenixBadEntry t i →
      ∃ e, xenixPartitionMapIterate hook disk s = (some e, disk, s)
  calls : (∃ e, xenixPartitionMapIterate hook disk s = (some e, disk, s))
    ∨ ∃ parent t, disk.partition = [parent] ∧ xenixReadTable parent disk = .ok t disk
      ∧ XenixReservedEnd parent.start t.heads t.sectors t.aliases (parent.start + t.reserved)
      ∧ (∀ i < XENIX_WHOLE_DIVISION, ¬ XenixBadEntry t i)
      ∧ (∀ p ∈ xenixParts t (List.range XENIX_WHOLE_DIVISION), 0 < p.len ∧ t.reserved ≤ p.start
        ∧ p.start + p.len ≤ parent.len)
      ∧ xenixPartitionMapIterate hook disk s =
        let r := xenixCallHook hook (xenixParts t (List.range XENIX_WHOLE_DIVISION)) disk s
        (none, { r.1 with partition := disk.partition }, r.2)

theorem xenixParent_eq_some {disk : PartDisk} (h : xenixParent disk = some parent) :
    disk.partition = [parent] := by
  rw [xenixParent.eq_def] at h
  split at h
  · rename_i p hpartition
    split_ifs at h
    exact hpartition.trans (congrArg (fun p => [p]) (Option.some.inj h))
  · cases h

/-- Nothing of the disk changes but `disk->partition`, wherever the computation ends. -/
def XenixKeeps {α : Type} (x : XenixM α) : Prop := ∀ d,
  match x d with
  | .ok _ d' => ∀ partition, { d' with partition := partition } = { d with partition := partition }
  | .error _ d' => ∀ partition, { d' with partition := partition } = { d with partition := partition }

theorem XenixKeeps.bind {α β : Type} {x : XenixM α} {f : α → XenixM β} (hx : XenixKeeps x)
    (hf : ∀ a, XenixKeeps (f a)) : XenixKeeps (x >>= f) := by
  intro d
  change match EStateM.bind x f d with
    | .ok _ d' => _
    | .error _ d' => _
  have hx := hx d
  rw [EStateM.bind]
  cases hd : x d with
  | error e d' =>
    rw [hd] at hx
    exact hx
  | ok a d' =>
    rw [hd] at hx
    have hf := hf a d'
    dsimp only
    cases hd' : f a d' with
    | error e d'' =>
      rw [hd'] at hf
      exact fun partition => (hf partition).trans (hx partition)
    | ok b d'' =>
      rw [hd'] at hf
      exact fun partition => (hf partition).trans (hx partition)

theorem xenixKeeps_pure {α : Type} (a : α) : XenixKeeps (pure a) := fun _ _ => rfl

theorem xenixKeeps_read (sector size : ℕ) : XenixKeeps (xenixRead sector size) := by
  intro d
  rw [xenixRead]
  cases d.read sector size <;> exact fun _ => rfl

theorem xenixKeeps_set (partition : List GrubPartition) : XenixKeeps (xenixSetPartition partition) :=
  fun _ _ => rfl

theorem xenixKeeps_refuse (p : Prop) [Decidable p] (message : String) :
    XenixKeeps (xenixRefuse p message) := by
  intro d
  rw [xenixRefuse]
  split_ifs <;> exact fun _ => rfl

theorem xenixKeeps_readTable (parent : GrubPartition) : XenixKeeps (xenixReadTable parent) := by
  rw [xenixReadTable]
  refine (xenixKeeps_read _ _).bind fun label => (xenixKeeps_refuse _ _).bind fun _ => ?_
  refine (xenixKeeps_read _ _).bind fun badtrk => (xenixKeeps_refuse _ _).bind fun _ => ?_
  refine (xenixKeeps_refuse _ _).bind fun _ => (xenixKeeps_set _).bind fun _ => ?_
  refine (xenixKeeps_read _ _).bind fun mbr => (xenixKeeps_set _).bind fun _ => ?_
  refine (xenixKeeps_refuse _ _).bind fun _ => (xenixKeeps_refuse _ _).bind fun _ => ?_
  exact (xenixKeeps_refuse _ _).bind fun _ => xenixKeeps_pure _

theorem xenixKeeps_divisions (t : XenixTable) (l : List ℕ) : XenixKeeps (xenixDivisions t l) := by
  induction l with
  | nil => exact xenixKeeps_pure _
  | cons i l ih =>
    rw [xenixDivisions]
    refine XenixKeeps.bind ?_ fun p => ih.bind fun parts => xenixKeeps_pure _
    rw [xenixDivision]
    split_ifs
    · exact xenixKeeps_pure _
    · exact (xenixKeeps_refuse _ _).bind fun _ => xenixKeeps_pure _

/-- A call either ends with an error before the hook is called, or exposes all divisions of a table
without a bad entry. -/
theorem xenixPartitionMapIterate_calls {σ : Type}
    (hook : PartDisk → GrubPartition → σ → Bool × PartDisk × σ) (disk : PartDisk) (s : σ) :
    (∃ e, xenixPartitionMapIterate hook disk s = (some e, disk, s))
    ∨ ∃ parent t, disk.partition = [parent] ∧ xenixReadTable parent disk = .ok t disk
      ∧ XenixReservedEnd parent.start t.heads t.sectors t.aliases (parent.start + t.reserved)
      ∧ (∀ i < XENIX_WHOLE_DIVISION, ¬ XenixBadEntry t i)
      ∧ (∀ p ∈ xenixParts t (List.range XENIX_WHOLE_DIVISION), 0 < p.len ∧ t.reserved ≤ p.start
        ∧ p.start + p.len ≤ parent.len)
      ∧ xenixPartitionMapIterate hook disk s =
        let r := xenixCallHook hook (xenixParts t (List.range XENIX_WHOLE_DIVISION)) disk s
        (none, { r.1 with partition := disk.partition }, r.2) := by
  cases hparent : xenixParent disk with
  | none =>
    have hrun : xenixPartitionMapIterate hook disk s
        = (some (.badPartTable "not a xenix partition"), disk, s) := by
      rw [xenixPartitionMapIterate, hparent]
    exact .inl ⟨_, hrun⟩
  | some parent =>
    have hpartition := xenixParent_eq_some hparent
    have hkeeps := ((xenixKeeps_readTable parent).bind fun t =>
      xenixKeeps_divisions t (List.range XENIX_WHOLE_DIVISION)) disk
    have hsame : { disk with partition := [parent] } = disk := by rw [← hpartition]
    cases hparts : (xenixReadTable parent >>= fun t =>
      xenixDivisions t (List.range XENIX_WHOLE_DIVISION)) disk with
    | error e disk' =>
      rw [hparts] at hkeeps
      have hrun : xenixPartitionMapIterate hook disk s = (some e, disk, s) := by
        rw [xenixPartitionMapIterate, hparent]
        simp only [hparts]
        rw [hkeeps, hsame]
      exact .inl ⟨e, hrun⟩
    | ok parts disk' =>
      have hrun : xenixPartitionMapIterate hook disk s
          = (none, { (xenixCallHook hook parts disk' s).1 with partition := [parent] },
            (xenixCallHook hook parts disk' s).2) := by
        rw [xenixPartitionMapIterate, hparent]
        simp only [hparts]
      change EStateM.bind _ _ _ = _ at hparts
      rw [EStateM.bind] at hparts
      cases htable : xenixReadTable parent disk with
      | error e d =>
        rw [htable] at hparts
        cases hparts
      | ok t d =>
        rw [htable] at hparts
        obtain ⟨rfl, ht⟩ := xenixReadTable_eq_ok hpartition htable
        obtain ⟨rfl, hgood, rfl⟩ := xenixDivisions_eq_ok ht hparts
        have hgood' : ∀ i < XENIX_WHOLE_DIVISION, ¬ XenixBadEntry t i :=
          fun i hi => hgood i (List.mem_range.mpr hi)
        refine .inr ⟨parent, t, hpartition, htable, ht.start ▸ ht.reserved_end, hgood', fun p hp => ?_,
          by rw [hrun, hpartition]⟩
        obtain ⟨i, hi, rfl⟩ := List.mem_map.mp hp
        obtain ⟨hi, hsize⟩ := List.mem_filter.mp hi
        obtain ⟨hpos, hbehind, hinside⟩ :=
          xenixPart_inside ht (hgood i hi) (of_decide_eq_true hsize)
        have hstart := ht.start
        exact ⟨hpos, by omega, hinside⟩

/-- Divisions that are exposed lie in the partition behind the reserved area, a bad entry hides them
all, and `disk->partition` is put back. -/
theorem xenix_exact {σ : Type} (hook : PartDisk → GrubPartition → σ → Bool × PartDisk × σ)
    (disk : PartDisk) (s : σ) : XenixExact hook disk s where
  restored := by
    rcases xenixPartitionMapIterate_calls hook disk s with ⟨e, hrun⟩ | ⟨_, _, -, -, -, -, -, hrun⟩
    · rw [hrun]
    · rw [hrun]
  bad parent t i hpartition htable hi hbad := by
    rcases xenixPartitionMapIterate_calls hook disk s with h | ⟨parent', t', hparent, htable', -, hgood, -⟩
    · exact h
    · obtain rfl : parent = parent' := List.singleton_inj.mp (hpartition.symm.trans hparent)
      rw [htable] at htable'
      cases htable'
      exact absurd hbad (hgood i hi)
  calls := xenixPartitionMapIterate_calls hook disk s

end FsRover
