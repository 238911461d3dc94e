import FsRover.Bytes
import FsRover.Grub
import FsRover.Lib.Memory
import FsRover.Lib.Strips

/-!
# Fragments of an ADFS disc

The map of a disc has a sector for each zone. Behind a header with the first free run, the runs of the
zone follow each other: the id of a fragment, zeros, and a set bit at which the run ends. A fragment is
all runs with its id, from its home zone on.

## Main definitions

* `FsRover.AdfsData`, `FsRover.adfsMount` : a disc that is mounted.
-/

namespace FsRover

open Outcome

/-! ### The disc record -/

/-- `adfs_disk_read`. -/
def adfsDiskRead (disk : SizedDisk) (offset len : ℕ) : Except GrubError Buf := disk.read offset len

/-- The fields of `struct grub_adfs_discrecord` that are read. -/
structure AdfsDiscrecord where
  log2secsize : ℕ
  idlen : ℕ
  log2bpmb : ℕ
  nzones : ℕ
  zoneSpare : ℕ
  root : ℕ
  discSize : ℕ
  discSizeHigh : ℕ
  sharesize : ℕ
  nzonesHigh : ℕ
  formatVersion : ℕ
  rootSize : ℕ
  unused52 : List UInt8

/-- The disc record at `p`. -/
def adfsDiscrecord (p : Buf) : AdfsDiscrecord where
  log2secsize := byteAt p 0
  idlen := byteAt p 4
  log2bpmb := byteAt p 5
  nzones := byteAt p 9
  zoneSpare := lostLe16 p 10
  root := lostLe32 p 12
  discSize := lostLe32 p 16
  discSizeHigh := lostLe32 p 36
  sharesize := byteAt p 40
  nzonesHigh := byteAt p 42
  formatVersion := lostLe32 p 44
  rootSize := lostLe32 p 48
  unused52 := p.list 52 8

/-- `adfs_disc_size`. -/
def AdfsDiscrecord.size (dr : AdfsDiscrecord) : ℕ := dr.discSizeHigh * 2 ^ 32 + dr.discSize

/-- The number of zones. -/
def AdfsDiscrecord.zones (dr : AdfsDiscrecord) : ℕ := dr.nzones + dr.nzonesHigh * 2 ^ 8

/-- `adfs_check_boot_block`: the sum from the byte with the number `i - 1` down. -/
def adfsBootSum (block : Buf) : ℕ → ℕ → ℕ
  | 0, result => result
  | i + 1, result => adfsBootSum block i (result % 2 ^ 8 + result / 2 ^ 8 + byteAt block i)

/-- `adfs_check_boot_block`. -/
def adfsCheckBootBlock (block : Buf) : Bool := adfsBootSum block 511 0 % 2 ^ 8 = byteAt block 511

/-- `adfs_check_discrecord`. -/
structure AdfsDiscrecord.Checked (dr : AdfsDiscrecord) : Prop where
  secsize : 8 ≤ dr.log2secsize ∧ dr.log2secsize ≤ 10
  idlen : dr.log2secsize + 3 ≤ dr.idlen
  high : dr.discSizeHigh / 2 ^ dr.log2secsize = 0
  size : dr.size ≠ 0
  maxIdlen : dr.idlen ≤ if dr.formatVersion ≠ 0 then 19 else 16
  bpmb : dr.log2bpmb < 32
  zones : dr.zones ≠ 0
  spare : 32 ≤ dr.zoneSpare ∧ dr.zoneSpare < 8 * 2 ^ dr.log2secsize
  unused : ∀ b ∈ dr.unused52, b = 0

instance (dr : AdfsDiscrecord) : Decidable dr.Checked :=
  haveI : Decidable (∀ b ∈ dr.unused52, b = 0) := List.decidableBAll _ _
  decidable_of_iff ((8 ≤ dr.log2secsize ∧ dr.log2secsize ≤ 10) ∧ dr.log2secsize + 3 ≤ dr.idlen
    ∧ dr.discSizeHigh / 2 ^ dr.log2secsize = 0 ∧ dr.size ≠ 0
    ∧ dr.idlen ≤ (if dr.formatVersion ≠ 0 then 19 else 16) ∧ dr.log2bpmb < 32 ∧ dr.zones ≠ 0
    ∧ (32 ≤ dr.zoneSpare ∧ dr.zoneSpare < 8 * 2 ^ dr.log2secsize) ∧ ∀ b ∈ dr.unused52, b = 0)
    ⟨fun ⟨a, b, c, d, e, f, g, h, i⟩ => ⟨a, b, c, d, e, f, g, h, i⟩,
      fun ⟨a, b, c, d, e, f, g, h, i⟩ => ⟨a, b, c, d, e, f, g, h, i⟩⟩

/-- `adfs_same_geometry`. -/
def adfsSameGeometry (a b : AdfsDiscrecord) : Bool :=
  a.log2secsize = b.log2secsize ∧ a.idlen = b.idlen ∧ a.log2bpmb = b.log2bpmb
    ∧ a.sharesize % 2 ^ 4 = b.sharesize % 2 ^ 4 ∧ a.nzones = b.nzones ∧ a.nzonesHigh = b.nzonesHigh
    ∧ a.zoneSpare = b.zoneSpare ∧ a.discSize = b.discSize ∧ a.discSizeHigh = b.discSizeHigh

/-- The disc record of a boot block, if there is a good one. -/
def adfsBootRecord (disk : SizedDisk) : Option AdfsDiscrecord :=
  match adfsDiskRead disk 0xc00 512 with
  | .error _ => none
  | .ok block =>
    if adfsCheckBootBlock block ∧ (adfsDiscrecord (block.from 0x1c0)).Checked then
      some (adfsDiscrecord (block.from 0x1c0))
    else none

/-- `adfs_read_discrecord`. -/
def adfsReadDiscrecord (disk : SizedDisk) : Option AdfsDiscrecord :=
  match adfsBootRecord disk with
  | some dr => some dr
  | none =>
    match adfsDiskRead disk 0 64 with
    | .error _ => none
    | .ok block =>
      let dr := adfsDiscrecord (block.from 4)
      if dr.Checked ∧ dr.nzonesHigh = 0 ∧ dr.nzones = 1 then some dr else none

/-! ### The map -/

/-- The loop of `adfs_zone_check` over the words from the one with the number `n` down. -/
def adfsZoneSum (map : Buf) : ℕ → ℕ × ℕ × ℕ × ℕ → ℕ × ℕ × ℕ × ℕ
  | 0, v => v
  | n + 1, (v0, v1, v2, v3) =>
    let i := 4 * (n + 1)
    let v0 := v0 + (byteAt map i + v3 / 2 ^ 8)
    let v3 := v3 % 2 ^ 8
    let v1 := v1 + (byteAt map (i + 1) + v0 / 2 ^ 8)
    let v0 := v0 % 2 ^ 8
    let v2 := v2 + (byteAt map (i + 2) + v1 / 2 ^ 8)
    let v1 := v1 % 2 ^ 8
    let v3 := v3 + (byteAt map (i + 3) + v2 / 2 ^ 8)
    let v2 := v2 % 2 ^ 8
    adfsZoneSum map n (v0, v1, v2, v3)

/-- `adfs_zone_check`. -/
def adfsZoneCheck (map : Buf) (sectorSize : ℕ) : ℕ :=
  let (v0, v1, v2, v3) := adfsZoneSum map (sectorSize / 4 - 1) (0, 0, 0, 0)
  let v0 := v0 + v3 / 2 ^ 8
  let v1 := v1 + (byteAt map 1 + v0 / 2 ^ 8)
  let v2 := v2 + (byteAt map 2 + v1 / 2 ^ 8)
  let v3 := v3 + (byteAt map 3 + v2 / 2 ^ 8)
  (v0 ^^^ v1 ^^^ v2 ^^^ v3) % 2 ^ 8

/-- The part of `struct grub_adfs_data` that objects depend on, as `adfs_mount` leaves it. The bits of
the last zone end where the disc does. -/
structure AdfsData where
  log2secsize : ℕ
  idlen : ℕ
  log2bpmb : ℕ
  discSize : ℕ
  formatVersion : ℕ
  map : Buf
  zoneSize : ℕ
  nzones : ℕ
  lastZoneEndbit : ℕ
  log2sharesize : ℕ
  secsize_ge : 8 ≤ log2secsize
  secsize_le : log2secsize ≤ 10
  idlen_ge : log2secsize + 3 ≤ idlen
  idlen_le : idlen ≤ 19
  bpmb_lt : log2bpmb < 32
  zone_gt : 480 < zoneSize
  zone_le : zoneSize + 32 ≤ 2 ^ log2secsize * 8
  nzones_pos : 0 < nzones
  nzones_lt : nzones < 2 ^ 16
  share_lt : log2sharesize < 2 ^ 4
  endbit_gt : 32 < lastZoneEndbit
  endbit_le : lastZoneEndbit ≤ 32 + zoneSize
  endbit_eq : (nzones - 1) * zoneSize + lastZoneEndbit = discSize / 2 ^ log2bpmb + 512

/-- `sector_size`. -/
def AdfsData.sectorSize (data : AdfsData) : ℕ := 2 ^ data.log2secsize

/-- `ids_per_zone`. -/
def AdfsData.idsPerZone (data : AdfsData) : ℕ := data.zoneSize / (data.idlen + 1)

/-- `map2blk`. -/
def adfsMap2blk (log2bpmb log2secsize : ℕ) : ℤ := (log2bpmb : ℤ) - log2secsize

/-- A count of map bits in blocks. -/
def adfsToBlocks (map2blk : ℤ) (bits : ℕ) : ℕ :=
  if 0 ≤ map2blk then bits <<< map2blk.toNat else bits >>> (-map2blk).toNat

/-- A count of blocks in map bits. -/
def adfsToBits (map2blk : ℤ) (blocks : ℕ) : ℕ :=
  if 0 ≤ map2blk then blocks >>> map2blk.toNat else u64 (blocks <<< (-map2blk).toNat)

def AdfsData.map2blk (data : AdfsData) : ℤ := adfsMap2blk data.log2bpmb data.log2secsize

/-- `zone_size` for a disc record. -/
def AdfsDiscrecord.zoneSize (dr : AdfsDiscrecord) : ℕ := 2 ^ dr.log2secsize * 8 - dr.zoneSpare

/-- Where the map is, in blocks. -/
def AdfsDiscrecord.mapBlocks (dr : AdfsDiscrecord) : ℕ :=
  adfsToBlocks (adfsMap2blk dr.log2bpmb dr.log2secsize)
    (dr.zones / 2 * dr.zoneSize - if 1 < dr.zones then 480 else 0)

/-- The checks of `adfs_read_map` before the map is read. -/
def AdfsDiscrecord.MapFits (dr : AdfsDiscrecord) : Prop :=
  480 < dr.zoneSize ∧ dr.zoneSize / (dr.idlen + 1) ≠ 0
    ∧ (1 < dr.zones → 480 ≤ dr.zones / 2 * dr.zoneSize)
    ∧ dr.mapBlocks ≤ dr.size / 2 ^ dr.log2secsize
    ∧ dr.zones * 2 ^ dr.log2secsize ≤ dr.size
    ∧ dr.mapBlocks * 2 ^ dr.log2secsize ≤ dr.size - dr.zones * 2 ^ dr.log2secsize

instance (dr : AdfsDiscrecord) : Decidable dr.MapFits := inferInstanceAs (Decidable (_ ∧ _))

/-- Every zone has a good checksum, and so have all together. -/
def adfsMapGood (map : Buf) (sectorSize nzones : ℕ) : Bool :=
  (List.range nzones).all (fun zone => adfsZoneCheck (map.from (zone * sectorSize)) sectorSize
      = byteAt map (zone * sectorSize))
    ∧ (List.range nzones).foldl (fun crosscheck zone =>
      crosscheck ^^^ byteAt map (zone * sectorSize + 3)) 0 = 0xff

/-- The bits of the disc. -/
def AdfsDiscrecord.discBits (dr : AdfsDiscrecord) : ℕ := dr.size / 2 ^ dr.log2bpmb

/-- The bits of the disc in the zones before the last. -/
def AdfsDiscrecord.preceding (dr : AdfsDiscrecord) : ℕ := (dr.zones - 1) * dr.zoneSize - 480

/-- `last_zone_endbit`, if `adfs_read_map` accepts it. -/
def AdfsDiscrecord.lastZoneEndbit (dr : AdfsDiscrecord) : Option ℕ :=
  if dr.zones = 1 then
    if dr.zoneSize - 480 < dr.discBits ∨ 2 ^ dr.log2secsize * 8 < 512 + dr.discBits
      ∨ 512 + dr.discBits ≤ 512 then none
    else some (512 + dr.discBits)
  else if dr.discBits ≤ dr.preceding ∨ dr.zoneSize < dr.discBits - dr.preceding
    ∨ 2 ^ dr.log2secsize * 8 < 32 + (dr.discBits - dr.preceding) then none
  else some (32 + (dr.discBits - dr.preceding))

theorem AdfsDiscrecord.lastZoneEndbit_spec {dr : AdfsDiscrecord} {endbit : ℕ} (hzones : dr.zones ≠ 0)
    (hzone : 480 < dr.zoneSize) (h : dr.lastZoneEndbit = some endbit) :
    32 < endbit ∧ endbit ≤ 32 + dr.zoneSize
      ∧ (dr.zones - 1) * dr.zoneSize + endbit = dr.discBits + 512 := by
  rw [AdfsDiscrecord.lastZoneEndbit] at h
  split_ifs at h with hone hsingle hmany
  · have hend : 512 + dr.discBits = endbit := Option.some.inj h
    rw [hone, Nat.sub_self, Nat.zero_mul]
    omega
  · have hend : 32 + (dr.discBits - dr.preceding) = endbit := Option.some.inj h
    have hmul : 1 * dr.zoneSize ≤ (dr.zones - 1) * dr.zoneSize :=
      Nat.mul_le_mul_right _ (by omega)
    have hpreceding : dr.preceding = (dr.zones - 1) * dr.zoneSize - 480 := rfl
    omega

theorem adfsSameGeometry_spec {a b : AdfsDiscrecord} (h : adfsSameGeometry a b = true) :
    a.log2secsize = b.log2secsize ∧ a.log2bpmb = b.log2bpmb ∧ a.size = b.size := by
  obtain ⟨hsecsize, -, hbpmb, -, -, -, -, hsize, hhigh⟩ := of_decide_eq_true h
  exact ⟨hsecsize, hbpmb, by rw [AdfsDiscrecord.size, AdfsDiscrecord.size, hsize, hhigh]⟩

theorem adfsReadDiscrecord_checked {disk : SizedDisk} {dr : AdfsDiscrecord}
    (h : adfsReadDiscrecord disk = some dr) : dr.Checked ∧ dr.zones < 2 ^ 16 := by
  have hzones : ∀ p : Buf, (adfsDiscrecord p).zones < 2 ^ 16 := by
    intro p
    have hlow := byteAt_lt p 9
    have hhigh := byteAt_lt p 42
    change byteAt p 9 + byteAt p 42 * 2 ^ 8 < 2 ^ 16
    omega
  rw [adfsReadDiscrecord] at h
  cases hboot : adfsBootRecord disk with
  | some first =>
    rw [hboot] at h
    obtain rfl := Option.some.inj h
    rw [adfsBootRecord] at hboot
    split at hboot
    · cases hboot
    · split_ifs at hboot with hgood
      obtain rfl := Option.some.inj hboot
      exact ⟨hgood.2, hzones _⟩
  | none =>
    rw [hboot] at h
    dsimp only at h
    split at h
    · cases h
    · split_ifs at h with hgood
      obtain rfl := Option.some.inj h
      exact ⟨hgood.1, hzones _⟩

/-- The root directory has a size that is accepted. -/
def AdfsDiscrecord.RootGood (dr : AdfsDiscrecord) : Prop :=
  dr.formatVersion ≠ 0 → dr.rootSize ≠ 0 ∧ dr.rootSize ≤ 4 * 1024 * 1024

instance (dr : AdfsDiscrecord) : Decidable dr.RootGood := inferInstanceAs (Decidable (_ → _))

/-- What `adfs_mount` leaves: the geometry of the first disc record, and the one in the map. -/
def adfsData (first dr : AdfsDiscrecord) (map : Buf) (endbit : ℕ)
    (hfirst : first.Checked ∧ first.zones < 2 ^ 16) (hfits : first.MapFits)
    (hend : first.lastZoneEndbit = some endbit) (hdr : dr.Checked)
    (hsame : adfsSameGeometry first dr = true) : AdfsData where
  log2secsize := dr.log2secsize
  idlen := dr.idlen
  log2bpmb := dr.log2bpmb
  discSize := dr.size
  formatVersion := dr.formatVersion
  map := map
  zoneSize := first.zoneSize
  nzones := first.zones
  lastZoneEndbit := endbit
  log2sharesize := first.sharesize % 2 ^ 4
  secsize_ge := hdr.secsize.1
  secsize_le := hdr.secsize.2
  idlen_ge := hdr.idlen
  idlen_le := by
    have hmax := hdr.maxIdlen
    split_ifs at hmax <;> omega
  bpmb_lt := hdr.bpmb
  zone_gt := hfits.1
  zone_le := by
    have hspare := hfirst.1.spare
    have hzone : first.zoneSize = 2 ^ first.log2secsize * 8 - first.zoneSpare := rfl
    rw [← (adfsSameGeometry_spec hsame).1]
    omega
  nzones_pos := Nat.pos_of_ne_zero hfirst.1.zones
  nzones_lt := hfirst.2
  share_lt := Nat.mod_lt _ (by decide)
  endbit_gt := (AdfsDiscrecord.lastZoneEndbit_spec hfirst.1.zones hfits.1 hend).1
  endbit_le := (AdfsDiscrecord.lastZoneEndbit_spec hfirst.1.zones hfits.1 hend).2.1
  endbit_eq := by
    obtain ⟨-, hbpmb, hsize⟩ := adfsSameGeometry_spec hsame
    rw [← hbpmb, ← hsize]
    exact (AdfsDiscrecord.lastZoneEndbit_spec hfirst.1.zones hfits.1 hend).2.2

/-- `adfs_mount` behind the first disc record. -/
def adfsMountMap (disk : SizedDisk) (first : AdfsDiscrecord)
    (hfirst : first.Checked ∧ first.zones < 2 ^ 16) : Option AdfsData :=
  if hfits : first.MapFits then
    match adfsDiskRead disk (first.mapBlocks * 2 ^ first.log2secsize)
        (first.zones * 2 ^ first.log2secsize) with
    | .error _ => none
    | .ok map =>
      match hend : first.lastZoneEndbit with
      | none => none
      | some endbit =>
        let dr := adfsDiscrecord (map.from 4)
        if hdr : adfsMapGood map (2 ^ first.log2secsize) first.zones = true ∧ dr.Checked
            ∧ adfsSameGeometry first dr = true ∧ dr.RootGood then
          some (adfsData first dr map endbit hfirst hfits hend hdr.2.1 hdr.2.2.1)
        else none
  else none

/-- `adfs_mount`. -/
def adfsMount (disk : SizedDisk) : Option AdfsData :=
  match h : adfsReadDiscrecord disk with
  | none => none
  | some first => adfsMountMap disk first (adfsReadDiscrecord_checked h)

/-! ### Fragments -/

/-- A bit of the map, in a window of bits that may be examined. -/
def adfsBit (lo hi : ℕ) (map : Buf) (bit : ℕ) : Outcome GrubError ℕ :=
  inside (lo ≤ bit ∧ bit < hi) (byteAt map (bit / 8) / 2 ^ (bit % 8) % 2)

/-- `adfs_map_bits`. -/
def adfsMapBits (lo hi : ℕ) (map : Buf) (start : ℕ) : ℕ → Outcome GrubError ℕ
  | 0 => done 0
  | count + 1 => adfsMapBits lo hi map start count >>= fun value =>
    adfsBit lo hi map (start + count) >>= fun b => done (value + b * 2 ^ count)

/-- `adfs_next_set_bit` over the `n` bits from `start` on. -/
def adfsNextSetBit (lo hi : ℕ) (map : Buf) : ℕ → ℕ → Outcome GrubError ℕ
  | 0, start => done start
  | n + 1, start => adfsBit lo hi map start >>= fun b =>
    if b = 1 then done start else adfsNextSetBit lo hi map n (start + 1)

/-- The loop of `adfs_lookup_zone`, over at most so many rounds: the bit that is found, or what is left
of the offset. -/
def adfsLookupRuns (lo hi : ℕ) (map : Buf) (idlen endbit fragId : ℕ) :
    ℕ → ℕ → ℕ → ℕ → Outcome GrubError (ℕ ⊕ ℕ)
  | 0, _, _, _ => deep
  | rounds + 1, start, freelink, offset =>
    if endbit ≤ start then done (.inl offset)
    else if endbit ≤ start + idlen then done (.inl offset)
    else
      adfsMapBits lo hi map start idlen >>= fun frag =>
      adfsNextSetBit lo hi map (endbit - (start + idlen)) (start + idlen) >>= fun fragend =>
      if endbit ≤ fragend then done (.inl offset)
      else
        let length := fragend + 1 - start
        if start = freelink then
          adfsLookupRuns lo hi map idlen endbit fragId rounds (fragend + 1) (freelink + frag % 2 ^ 15)
            offset
        else if frag = fragId then
          if offset < length then done (.inr (start + offset))
          else adfsLookupRuns lo hi map idlen endbit fragId rounds (fragend + 1) freelink
            (offset - length)
        else adfsLookupRuns lo hi map idlen endbit fragId rounds (fragend + 1) freelink offset

/-- Where the bits of a zone start in its sector. -/
def adfsStartbit (zone : ℕ) : ℕ := if zone ≠ 0 then 32 else 512

/-- Where the bits of a zone end in its sector. -/
def AdfsData.endbit (data : AdfsData) (zone : ℕ) : ℕ :=
  if zone + 1 = data.nzones then data.lastZoneEndbit else 32 + data.zoneSize

/-- The sector of a zone. -/
def AdfsData.zoneMap (data : AdfsData) (zone : ℕ) : Buf := data.map.from (zone * data.sectorSize)

/-- `adfs_lookup_zone`; but for the link to the first free run, only bits between the start and the end
bit may be examined. -/
def adfsLookupZone (data : AdfsData) (zone fragId offset : ℕ) : Outcome GrubError (ℕ ⊕ ℕ) :=
  adfsMapBits 8 23 (data.zoneMap zone) 8 (if data.idlen ≤ 15 then data.idlen else 15)
    >>= fun freelink =>
  adfsLookupRuns (adfsStartbit zone) (data.endbit zone) (data.zoneMap zone) data.idlen
    (data.endbit zone) fragId (data.endbit zone) (adfsStartbit zone)
    (if freelink % 2 ^ 15 ≠ 0 then 8 + freelink % 2 ^ 15 else 0) offset

/-- A number as `%x` prints it. -/
def adfsHex (n : ℕ) : String := String.ofList (Nat.toDigits 16 n)

def adfsNotFound (fragId offset : ℕ) : GrubError :=
  ⟨.badFs, s!"ADFS fragment 0x{adfsHex fragId} at offset {offset} not found"⟩

/-- The disc in blocks. -/
def AdfsData.blocks (data : AdfsData) : ℕ := data.discSize / data.sectorSize

/-- The bit of the disc that a bit in the sector of a zone stands for. -/
def AdfsData.discBit (data : AdfsData) (zone bit : ℕ) : ℕ :=
  zone * data.zoneSize - (if zone ≠ 0 then 480 else 0) + bit - adfsStartbit zone

/-- The loop of `adfs_map_lookup` over so many zones from the one with the number `pass` on, counted
from `startZone`. -/
def adfsMapPasses (data : AdfsData) (fragId offset startZone : ℕ) :
    ℕ → ℕ → ℕ → Outcome GrubError ℕ
  | 0, _, _ => failed (adfsNotFound fragId offset)
  | n + 1, pass, mapoff =>
    let zone := (startZone + pass) % data.nzones
    adfsLookupZone data zone fragId mapoff >>= fun r =>
      match r with
      | .inl remaining => adfsMapPasses data fragId offset startZone n (pass + 1) remaining
      | .inr found =>
        -- `mapoff` is what is left of the offset in this zone
        let block := adfsToBlocks data.map2blk (data.discBit zone found)
          + (offset - adfsToBlocks data.map2blk mapoff)
        if block ≠ 0 ∧ block < data.blocks then done block else failed (adfsNotFound fragId offset)

/-- The zone with which the search for a fragment starts. -/
def AdfsData.startZone (data : AdfsData) (fragId : ℕ) : ℕ :=
  if fragId = 2 then data.nzones / 2 else fragId / data.idsPerZone

/-- `adfs_map_lookup`. -/
def adfsMapLookup (data : AdfsData) (fragId offset : ℕ) : Outcome GrubError ℕ :=
  if data.nzones ≤ data.startZone fragId then failed (adfsNotFound fragId offset)
  else adfsMapPasses data fragId offset (data.startZone fragId) data.nzones 0
    (adfsToBits data.map2blk offset)

/-- The block of a fragment that the block with the number `block` of an object is. -/
def AdfsData.shared (data : AdfsData) (indaddr block : ℕ) : ℕ :=
  block + if indaddr % 2 ^ 8 ≠ 0 then (indaddr % 2 ^ 8 - 1) * 2 ^ data.log2sharesize else 0

/-- `adfs_block_map`. -/
def adfsBlockMap (data : AdfsData) (indaddr block : ℕ) : Outcome GrubError ℕ :=
  adfsMapLookup data (indaddr / 2 ^ 8) (data.shared indaddr block)

/-- `adfs_read_object`, over at most so many rounds. -/
def adfsReadRounds (disk : SizedDisk) (data : AdfsData) (indaddr : ℕ) :
    ℕ → ℕ → ℕ → Outcome GrubError (List UInt8)
  | 0, _, _ => deep
  | rounds + 1, cur, len =>
    if len = 0 then done []
    else
      let blockoff := cur % data.sectorSize
      let amount := min (data.sectorSize - blockoff) len
      adfsBlockMap data indaddr (cur / data.sectorSize) >>= fun block =>
      ofExcept (adfsDiskRead disk (block * data.sectorSize + blockoff) amount) >>= fun out =>
      adfsReadRounds disk data indaddr rounds (cur + amount) (len - amount) >>= fun rest =>
      done (out.list 0 amount ++ rest)

/-- `adfs_read_object`. -/
def adfsReadObject (disk : SizedDisk) (data : AdfsData) (indaddr pos len : ℕ) :
    Outcome GrubError (List UInt8) :=
  adfsReadRounds disk data indaddr (len + 1) pos len

end FsRover
