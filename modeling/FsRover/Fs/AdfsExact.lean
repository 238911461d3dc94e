import FsRover.Fs.AdfsDir

/-!
# Fragments are read from the map, but for those that go on in another zone

`adfs_map_lookup` carries what is left of an offset from zone to zone in the variable from which it then
takes the sector inside a bit, so that the sectors of the zones before are counted twice.

## Main results

* `FsRover.adfs_spanned` : a disc with a fragment in two zones.
-/

namespace FsRover

open Outcome Strips

/-- What holds of a disc that is mounted. -/
structure AdfsExact (disk : SizedDisk) (data : AdfsData) : Prop where
  /-- The bits of a zone are in its sector. -/
  window : ∀ zone, 32 ≤ adfsStartbit zone ∧ data.endbit zone ≤ 8 * data.sectorSize
  /-- A search through a zone examines none but these and the first free link, ends, and is the walk
  along the runs of the fragment that are not free. -/
  zone : ∀ zone fragId offset, adfsLookupZone data zone fragId offset
    = done (seek (adfsOf fragId (adfsZoneRuns data zone)) offset)
  /-- A search ends with a block or an error. -/
  ends : ∀ fragId k, (∃ block, adfsMapLookup data fragId k = done block)
    ∨ adfsMapLookup data fragId k = failed (adfsNotFound fragId k)
  /-- It gives the sector with the number, or fails where there is none, exactly if the fragment has no
  sector in the zones before. -/
  exact : ∀ fragId k, AdfsWhole data fragId → k < 2 ^ 54 →
    (adfsMapLookup data fragId k = adfsAnswer fragId k (adfsWanted data fragId k)
      ↔ AdfsFirstZone data fragId k)
  /-- The sectors of a fragment are different, and on the disc. -/
  nodup : ∀ fragId, AdfsWhole data fragId → (adfsSectors data fragId).Nodup
    ∧ ∀ sector ∈ adfsSectors data fragId, sector < data.blocks
  /-- The sectors of two fragments are different. -/
  disjoint : ∀ f g, f ≠ g → AdfsWhole data f → AdfsWhole data g →
    ∀ sector ∈ adfsSectors data f, sector ∉ adfsSectors data g
  /-- A read ends, and gives the bytes of the blocks. -/
  read : ∀ indaddr pos len, (adfsReadObject disk data indaddr pos len).Ends (fun _ => True)
    ∧ ∀ bs, adfsReadObject disk data indaddr pos len = done bs ↔
      (∀ i, pos ≤ i → i < pos + len → AdfsReadable disk data indaddr i)
      ∧ bs = (List.range' pos len).map (adfsByte disk data indaddr)
  /-- A read in two parts gives the same. -/
  split : ∀ indaddr pos len len' bs, adfsReadObject disk data indaddr pos (len + len') = done bs ↔
    ∃ xs ys, adfsReadObject disk data indaddr pos len = done xs
      ∧ adfsReadObject disk data indaddr (pos + len) len' = done ys ∧ bs = xs ++ ys
  /-- A walk over a directory ends, and stays inside the buffer, with any hook. -/
  dir : ∀ {σ : Type} (hook : AdfsHook σ) indaddr size s,
    (adfsIterateDir disk data indaddr size hook s).Ends fun _ => True

/-- **A sector of an ADFS fragment is found exactly if no zone before its own has one.** -/
theorem adfs_exact (disk : SizedDisk) (data : AdfsData) : AdfsExact disk data where
  window zone := by
    have hendbit := @AdfsData.endbit_bounds data zone
    have hzone := data.zone_le
    refine ⟨adfsStartbit_ge, ?_⟩
    rw [AdfsData.sectorSize]
    omega
  zone _ _ _ := adfsLookupZone_eq
  ends _ _ := adfsMapLookup_ends
  exact _ _ hwhole hk := adfsMapLookup_iff hwhole hk
  nodup _ hwhole := ⟨adfsSectors_nodup hwhole, fun _ => adfsSectors_lt⟩
  disjoint _ _ hne hf hg _ := adfsSectors_disjoint hne hf hg
  read _ _ _ := ⟨adfsReadObject_ends, fun _ => adfsReadObject_iff⟩
  split _ _ _ _ _ := adfsReadObject_add
  dir _ _ _ _ := adfsIterateDir_ends

/-! ### A fragment in two zones -/

/-- A disc of two zones with sectors of 256 bytes. Fragment 2 has 16 sectors in the last zone, and 16
more in the first. -/
def adfsSpannedDisk : SizedDisk where
  bytes := Buf.ofFields
    -- the disc record of the boot block, and its check byte
    [(0xdc0, [8]), (0xdc4, [11, 8]), (0xdc9, [2]), (0xdcb, [6]), (0xdcd, [2]), (0xdd1, [0x50]),
    (0xdff, [117]),
    -- the first zone, with the disc record
    (0x2000, [204, 0, 0, 0xff, 8, 0, 0, 0, 11, 8]), (0x200d, [2]), (0x200f, [6]), (0x2011, [2]),
    (0x2015, [0x50]), (0x2040, [2, 0x80]),
    -- the last zone
    (0x2100, [130, 0, 0, 0, 2, 0x80])]
  sectors := some 40

/-- Sector 1 of the disc is wanted, but the one behind all 16 sectors of the last zone is found. A bit
of the map is a sector here. -/
theorem adfs_spanned : (adfsMount adfsSpannedDisk).map (fun data =>
    (adfsMapLookup data 2 17, adfsWanted data 2 17, data.perBlock)) = some (done 17, some 1, 1) := by
  decide +kernel

end FsRover
