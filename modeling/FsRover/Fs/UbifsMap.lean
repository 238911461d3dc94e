import FsRover.Fs.Ubifs
import FsRover.Lib.Guards
import Mathlib.Data.List.Induction
import Mathlib.Logic.Function.Basic

/-!
# UBI images

A UBI image is a row of physical eraseblocks. Each begins with headers that say which logical
eraseblock of which volume it holds; after an interrupted move two of them hold the same, with
different sequence numbers.

## Main definitions

* `FsRover.ubiCopyAt` : the logical eraseblock that a physical one holds.
* `FsRover.grubUbifsMapUbi` : the map of the volume that is mounted.

## Main results

* `FsRover.grubUbifsMapUbi_newest` : every logical eraseblock is mapped to its newest copy.
-/

namespace FsRover

open Guards

def UBI_EC_MAGIC : ℕ := 0x55424923
def UBI_VID_MAGIC : ℕ := 0x55424921
def UBI_HDR_LEN : ℕ := 64
def UBI_CRC_LEN : ℕ := 60
def UBI_MAX_PEB_SIZE : ℕ := 0x1000000
def UBI_INTERNAL_VOL : ℕ := 0x7fff0000
def UBI_LAYOUT_VOL : ℕ := 0x7fffefff
def UBI_VTBL_REC_LEN : ℕ := 172
def UBI_VTBL_NAME_MAX : ℕ := 127

/-- A header of UBI with this magic and the right checksum. -/
def ubiHeaderOk (hdr : Buf) (magic : ℕ) : Bool :=
  lostBe32 hdr 0 = magic && lostBe32 hdr 60 = grubUbifsCrc (hdr.list 0 UBI_CRC_LEN)

/-- The search for the second header of a physical eraseblock, in at most so many steps of 512 bytes;
zero if there is none. -/
def ubiNextEc (data : UbifsData) : ℕ → ℕ → Except GrubError ℕ
  | 0, _ => .ok 0
  | steps + 1, off =>
    if off < data.diskSize ∧ off ≤ UBI_MAX_PEB_SIZE then do
      let hdr ← data.disk.read off UBI_HDR_LEN
      if ubiHeaderOk hdr UBI_EC_MAGIC then .ok off else ubiNextEc data steps (off + 512)
    else .ok 0

/-- The size of the physical eraseblocks, and where their data begins. -/
def ubiDetect (data : UbifsData) : Except GrubError (ℕ × ℕ) := do
  let hdr ← data.disk.read 0 UBI_HDR_LEN
  refuseIf (ubiHeaderOk hdr UBI_EC_MAGIC = false) ⟨.badFs, "not a ubi image"⟩
  let vidHdrOffset := lostBe32 hdr 16
  let dataOffset := lostBe32 hdr 20
  refuseIf (vidHdrOffset < UBI_HDR_LEN ∨ dataOffset < u32 (vidHdrOffset + UBI_HDR_LEN)
    ∨ UBI_MAX_PEB_SIZE ≤ dataOffset) ⟨.badFs, "ubifs: bad ubi headers"⟩
  let pebSize ← ubiNextEc data (UBI_MAX_PEB_SIZE / 512) 512
  refuseIf (pebSize ≤ dataOffset) ⟨.badFs, "ubifs: cannot detect ubi eraseblock size"⟩
  .ok (pebSize, dataOffset)

/-- What the first pass looks for: the volume to mount with its `data_pad`, and the volume table with
its sequence number. -/
structure UbiFound where
  vol : Option (ℕ × ℕ) := none
  vtbl : Option ℕ := none
  vtblSq : ℕ := 0

/-- The header of a volume in a physical eraseblock, where the header in front of it is accepted. -/
def ubiVidAt (data : UbifsData) (pebSize peb : ℕ) (accepts : Buf → Bool) : Option Buf :=
  match data.disk.read (peb * pebSize) UBI_HDR_LEN with
  | .error _ => none
  | .ok hdr =>
    if accepts hdr then
      match data.disk.read (peb * pebSize + lostBe32 hdr 16) UBI_HDR_LEN with
      | .error _ => none
      | .ok vid => if ubiHeaderOk vid UBI_VID_MAGIC then some vid else none
    else none

/-- Whether a superblock of UBIFS begins there. -/
def ubiProbe (data : UbifsData) (off : ℕ) : Bool :=
  match data.disk.read off UBIFS_CH_LEN with
  | .error _ => false
  | .ok probe => lostLe32 probe 0 = UBIFS_MAGIC && byteAt probe 20 = UBIFS_SB_NODE

/-- One round of the first pass of `grub_ubifs_map_ubi`. -/
def ubiFindRound (data : UbifsData) (pebSize dataOffset npebs : ℕ) (found : UbiFound) (peb : ℕ) :
    UbiFound :=
  match ubiVidAt data pebSize peb (ubiHeaderOk · UBI_EC_MAGIC) with
  | none => found
  | some vid =>
    let vol := lostBe32 vid 8
    let lnum := lostBe32 vid 12
    let sqnum := lostBe64 vid 40
    if vol = UBI_LAYOUT_VOL ∧ lnum ≤ 1 then
      if found.vtbl = none ∨ (lnum = 0 ∧ found.vtblSq < sqnum) then
        { found with vtbl := some (peb * pebSize + dataOffset), vtblSq := sqnum }
      else found
    else if UBI_INTERNAL_VOL ≤ vol ∨ npebs ≤ lnum then found
    else if lnum = 0 ∧ (found.vol.all fun v => decide (vol < v.1))
        ∧ ubiProbe data (peb * pebSize + dataOffset) then
      { found with vol := some (vol, lostBe32 vid 28) }
    else found

/-- The first pass of `grub_ubifs_map_ubi`. -/
def ubiFind (data : UbifsData) (pebSize dataOffset : ℕ) : UbiFound :=
  let npebs := data.diskSize / pebSize
  (List.range npebs).foldl (ubiFindRound data pebSize dataOffset npebs) {}

/-- The logical eraseblock of a volume that a physical one holds, with its sequence number. -/
def ubiCopyAt (data : UbifsData) (pebSize volId peb : ℕ) : Option (ℕ × ℕ) :=
  match ubiVidAt data pebSize peb fun hdr => lostBe32 hdr 0 = UBI_EC_MAGIC with
  | none => none
  | some vid => if lostBe32 vid 8 = volId then some (lostBe32 vid 12, lostBe64 vid 40) else none

/-- `leb_off` and `sqnums`. -/
structure UbiMap where
  lebOff : ℕ → Option ℕ
  sqnums : ℕ → ℕ

/-- One round of the second pass of `grub_ubifs_map_ubi`. -/
def ubiMapRound (data : UbifsData) (pebSize dataOffset volId npebs : ℕ) (map : UbiMap) (peb : ℕ) :
    UbiMap :=
  match ubiCopyAt data pebSize volId peb with
  | none => map
  | some (lnum, sqnum) =>
    if npebs ≤ lnum ∨ (map.lebOff lnum ≠ none ∧ sqnum ≤ map.sqnums lnum) then map
    else
      { lebOff := Function.update map.lebOff lnum (some (peb * pebSize + dataOffset))
        sqnums := Function.update map.sqnums lnum sqnum }

/-- The name of the volume, if the volume table has it. -/
def ubiVolName (data : UbifsData) (lebSize volId : ℕ) (vtbl : Option ℕ) : Option (List UInt8) :=
  match vtbl with
  | none => none
  | some vtblOff =>
    if lebSize < volId * UBI_VTBL_REC_LEN + UBI_VTBL_REC_LEN then none
    else
      match data.disk.read (vtblOff + volId * UBI_VTBL_REC_LEN) UBI_VTBL_REC_LEN with
      | .error _ => none
      | .ok rec =>
        if lostBe32 rec 168 = grubUbifsCrc (rec.list 0 (UBI_VTBL_REC_LEN - 4))
            ∧ lostBe16 rec 14 ≤ UBI_VTBL_NAME_MAX then
          some ((rec.list 16 (lostBe16 rec 14)).takeWhile (· ≠ 0))
        else none

/-- `grub_ubifs_map_ubi`: the volume with its map, and its name. -/
def grubUbifsMapUbi (data : UbifsData) : Except GrubError (UbifsData × Option (List UInt8)) := do
  let (pebSize, dataOffset) ← ubiDetect data
  let npebs := data.diskSize / pebSize
  let found := ubiFind data pebSize dataOffset
  let (volId, dataPad) ← require found.vol ⟨.badFs, "ubifs: no ubifs volume in ubi image"⟩
  let lebSize := u32 (pebSize - dataOffset)
  refuseIf (lebSize ≤ dataPad) ⟨.badFs, "ubifs: bad ubi data_pad"⟩
  let map := (List.range npebs).foldl (ubiMapRound data pebSize dataOffset volId npebs)
    ⟨fun _ => none, fun _ => 0⟩
  .ok ({ data with lebOff := some map.lebOff, lebMapCnt := u32 npebs, lebSize := lebSize - dataPad },
    ubiVolName data (lebSize - dataPad) volId found.vtbl)

/-! ### Newest copies -/

variable {data data' : UbifsData} {pebSize dataOffset volId npebs : ℕ}

/-- `base` is where the data of the newest of these physical eraseblocks begins that hold the logical
one; there is none if none holds it. -/
def UbiNewest (data : UbifsData) (pebSize dataOffset volId : ℕ) (pebs : List ℕ) (lnum : ℕ) :
    Option ℕ → Prop
  | none => ∀ peb ∈ pebs, ∀ sqnum, ubiCopyAt data pebSize volId peb ≠ some (lnum, sqnum)
  | some base => ∃ peb ∈ pebs, ∃ sqnum, ubiCopyAt data pebSize volId peb = some (lnum, sqnum)
    ∧ base = peb * pebSize + dataOffset
    ∧ ∀ peb' ∈ pebs, ∀ sqnum', ubiCopyAt data pebSize volId peb' = some (lnum, sqnum') →
      sqnum' ≤ sqnum

/-- The map after some of the physical eraseblocks. -/
def UbiMapped (data : UbifsData) (pebSize dataOffset volId npebs : ℕ) (pebs : List ℕ) (map : UbiMap) :
    Prop :=
  ∀ lnum < npebs,
    match map.lebOff lnum with
    | none => ∀ peb ∈ pebs, ∀ sqnum, ubiCopyAt data pebSize volId peb ≠ some (lnum, sqnum)
    | some base => (∃ peb ∈ pebs, ubiCopyAt data pebSize volId peb = some (lnum, map.sqnums lnum)
        ∧ base = peb * pebSize + dataOffset)
      ∧ ∀ peb' ∈ pebs, ∀ sqnum', ubiCopyAt data pebSize volId peb' = some (lnum, sqnum') →
        sqnum' ≤ map.sqnums lnum

theorem UbiMapped.round {pebs : List ℕ} {map : UbiMap}
    (h : UbiMapped data pebSize dataOffset volId npebs pebs map) (peb : ℕ) :
    UbiMapped data pebSize dataOffset volId npebs (pebs ++ [peb])
      (ubiMapRound data pebSize dataOffset volId npebs map peb) := by
  intro lnum hlnum
  have hold := h lnum hlnum
  rw [ubiMapRound]
  -- a block that does not hold this one, or an older copy of it, changes nothing
  have hkeep : (∀ sqnum, ubiCopyAt data pebSize volId peb = some (lnum, sqnum) →
      map.lebOff lnum ≠ none ∧ sqnum ≤ map.sqnums lnum) →
        match map.lebOff lnum with
        | none => ∀ p ∈ pebs ++ [peb], ∀ sqnum, ubiCopyAt data pebSize volId p ≠ some (lnum, sqnum)
        | some base => (∃ p ∈ pebs ++ [peb], ubiCopyAt data pebSize volId p
              = some (lnum, map.sqnums lnum) ∧ base = p * pebSize + dataOffset)
          ∧ ∀ p ∈ pebs ++ [peb], ∀ sqnum', ubiCopyAt data pebSize volId p = some (lnum, sqnum') →
            sqnum' ≤ map.sqnums lnum := by
    intro hpeb
    cases hbase : map.lebOff lnum with
    | none =>
      rw [hbase] at hold hpeb
      intro p hp sqnum hcopy
      rcases List.mem_append.mp hp with hp | hp
      · exact hold p hp sqnum hcopy
      · rw [List.mem_singleton.mp hp] at hcopy
        exact (hpeb sqnum hcopy).1 rfl
    | some base =>
      rw [hbase] at hold
      obtain ⟨⟨p, hp, hcopy, rfl⟩, hmax⟩ := hold
      refine ⟨⟨p, List.mem_append_left _ hp, hcopy, rfl⟩, fun q hq sqnum' hq' => ?_⟩
      rcases List.mem_append.mp hq with hq | hq
      · exact hmax q hq sqnum' hq'
      · rw [List.mem_singleton.mp hq] at hq'
        exact (hpeb sqnum' hq').2
  cases hcopy : ubiCopyAt data pebSize volId peb with
  | none => exact hkeep fun sqnum hsome => by simp [hcopy] at hsome
  | some c =>
    obtain ⟨k, sqnum⟩ := c
    simp only
    by_cases hsame : k = lnum
    · subst hsame
      by_cases hkept : npebs ≤ k ∨ (map.lebOff k ≠ none ∧ sqnum ≤ map.sqnums k)
      · rw [if_pos hkept]
        refine hkeep fun sqnum' hsome => ?_
        obtain ⟨-, rfl⟩ := Prod.mk.inj (Option.some.inj (hcopy.symm.trans hsome))
        exact hkept.resolve_left (by omega)
      · -- a newer copy
        rw [if_neg hkept]
        simp only [Function.update_self]
        refine ⟨⟨peb, List.mem_append_right _ List.mem_cons_self, hcopy, rfl⟩, ?_⟩
        intro p hp sqnum' hp'
        rcases List.mem_append.mp hp with hp | hp
        · cases hbase : map.lebOff k with
          | none =>
            rw [hbase] at hold
            exact absurd hp' (hold p hp sqnum')
          | some base =>
            rw [hbase] at hold hkept
            have hlt : map.sqnums k < sqnum :=
              Nat.lt_of_not_le fun hle => hkept (.inr ⟨Option.some_ne_none _, hle⟩)
            exact (hold.2 p hp sqnum' hp').trans hlt.le
        · rw [List.mem_singleton.mp hp] at hp'
          obtain ⟨-, rfl⟩ := Prod.mk.inj (Option.some.inj (hcopy.symm.trans hp'))
          exact Nat.le_refl _
    · have hother : ∀ sqnum', ubiCopyAt data pebSize volId peb = some (lnum, sqnum') →
          map.lebOff lnum ≠ none ∧ sqnum' ≤ map.sqnums lnum := fun sqnum' hsome =>
        absurd (Prod.mk.inj (Option.some.inj (hcopy.symm.trans hsome))).1 hsame
      split_ifs
      · exact hkeep hother
      · simp only [Function.update_of_ne (Ne.symm hsame)]
        exact hkeep hother

theorem ubiMapRound_foldl (data : UbifsData) (pebSize dataOffset volId npebs : ℕ) (pebs : List ℕ) :
    UbiMapped data pebSize dataOffset volId npebs pebs
      (pebs.foldl (ubiMapRound data pebSize dataOffset volId npebs) ⟨fun _ => none, fun _ => 0⟩) := by
  induction pebs using List.reverseRecOn with
  | nil => exact fun _ _ => fun _ hp => by cases hp
  | append_singleton pebs peb ih =>
    rw [List.foldl_append, List.foldl_cons, List.foldl_nil]
    exact ih.round peb

/-- Every logical eraseblock of the volume is mapped to its newest copy. -/
theorem grubUbifsMapUbi_newest {name : Option (List UInt8)}
    (h : grubUbifsMapUbi data = .ok (data', name)) : ∃ pebSize dataOffset volId dataPad lebOff,
      ubiDetect data = .ok (pebSize, dataOffset)
      ∧ (ubiFind data pebSize dataOffset).vol = some (volId, dataPad) ∧ data'.lebOff = some lebOff
      ∧ data'.disk = data.disk ∧ data'.lebMapCnt = u32 (data.diskSize / pebSize)
      ∧ ∀ lnum < data.diskSize / pebSize,
        UbiNewest data pebSize dataOffset volId (List.range (data.diskSize / pebSize)) lnum
          (lebOff lnum) := by
  rw [grubUbifsMapUbi] at h
  obtain ⟨⟨pebSize, dataOffset⟩, hdetect, h⟩ := bind_eq_ok_iff.mp h
  obtain ⟨⟨volId, dataPad⟩, hvol, h⟩ := require_bind_eq_ok_iff.mp h
  rw [refuseIf_bind_eq_ok_iff] at h
  obtain ⟨rfl, -⟩ := Prod.mk.inj (Except.ok.inj h.2)
  refine ⟨pebSize, dataOffset, volId, dataPad, _, hdetect, hvol, rfl, rfl, rfl, fun lnum hlnum => ?_⟩
  have hmapped := ubiMapRound_foldl data pebSize dataOffset volId (data.diskSize / pebSize)
    (List.range (data.diskSize / pebSize)) lnum hlnum
  split at hmapped
  · rename_i hnone
    rw [hnone]
    exact hmapped
  · rename_i base hsome
    obtain ⟨⟨peb, hpeb, hcopy, hbase⟩, hmax⟩ := hmapped
    rw [hsome]
    exact ⟨peb, hpeb, _, hcopy, hbase, hmax⟩

theorem grubUbifsLebRead_eq_ok {lnum offs len : ℕ} {p : Buf}
    (h : grubUbifsLebRead data lnum offs len = .ok p) :
    ∃ base, ubifsLebBase data lnum = .ok base ∧ p = data.disk.bytes.from (u64 (base + offs)) := by
  rw [grubUbifsLebRead] at h
  split_ifs at h
  cases hbase : ubifsLebBase data lnum with
  | error e =>
    rw [hbase] at h
    cases h
  | ok base =>
    simp only [hbase] at h
    split_ifs at h
    exact ⟨base, rfl, SizedDisk.read_eq_ok h⟩

theorem ubifsLebBase_eq_ok {lebOff : ℕ → Option ℕ} {lnum base : ℕ}
    (hlebOff : data.lebOff = some lebOff) (h : ubifsLebBase data lnum = .ok base) :
    lnum < data.lebMapCnt ∧ lebOff lnum = some base := by
  rw [ubifsLebBase, hlebOff] at h
  simp only at h
  split_ifs at h with hmapped
  cases hbase : lebOff lnum with
  | none =>
    rw [hbase] at h
    cases h
  | some base' =>
    rw [hbase] at h
    exact ⟨Nat.lt_of_not_le hmapped, congrArg some (Except.ok.inj h)⟩

/-- What is read of a logical eraseblock is read from its newest copy. -/
theorem grubUbifsLebRead_newest {name : Option (List UInt8)} {vol : UbifsData}
    (h : grubUbifsMapUbi data = .ok (data', name)) (hdisk : vol.disk = data'.disk)
    (hlebOff : vol.lebOff = data'.lebOff) (hcnt : vol.lebMapCnt = data'.lebMapCnt) :
    ∃ pebSize dataOffset volId dataPad, ubiDetect data = .ok (pebSize, dataOffset)
      ∧ (ubiFind data pebSize dataOffset).vol = some (volId, dataPad)
      ∧ ∀ lnum offs len p, grubUbifsLebRead vol lnum offs len = .ok p → ∃ base,
        UbiNewest data pebSize dataOffset volId (List.range (data.diskSize / pebSize)) lnum
          (some base)
        ∧ p = data.disk.bytes.from (u64 (base + offs)) := by
  obtain ⟨pebSize, dataOffset, volId, dataPad, lebOff, hdetect, hvol, hsome, hsame, hcount, hnewest⟩ :=
    grubUbifsMapUbi_newest h
  refine ⟨pebSize, dataOffset, volId, dataPad, hdetect, hvol, fun lnum offs len p hread => ?_⟩
  obtain ⟨base, hbase, rfl⟩ := grubUbifsLebRead_eq_ok hread
  obtain ⟨hmapped, hmap⟩ := ubifsLebBase_eq_ok (hlebOff.trans hsome) hbase
  have hle : data'.lebMapCnt ≤ data.diskSize / pebSize := hcount ▸ Nat.mod_le _ _
  refine ⟨base, hmap ▸ hnewest lnum (by omega), ?_⟩
  rw [hdisk, hsame]

end FsRover
