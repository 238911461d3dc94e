import FsRover.Fs.AdfsSectors

/-!
# Reading ADFS objects

## Main definitions

* `FsRover.adfsByte`, `FsRover.AdfsReadable` : the bytes of an object, and which of them can be read.

## Main results

* `FsRover.adfsReadObject_iff` : what a read gives.
* `FsRover.adfsReadObject_add` : a read in two parts gives the same.
-/

namespace FsRover

open Outcome

/-- The disk has the byte with this number. -/
def SizedDisk.Holds (disk : SizedDisk) (i : ℕ) : Prop := ∀ sectors, disk.sectors = some sectors →
  i < 512 * sectors

/-- The byte of an object with the number `i`; 0 where its block is not found. -/
def adfsByte (disk : SizedDisk) (data : AdfsData) (indaddr i : ℕ) : UInt8 :=
  match adfsBlockMap data indaddr (i / data.sectorSize) with
  | done block => disk.bytes (block * data.sectorSize + i % data.sectorSize)
  | _ => 0

/-- The byte of an object with the number `i` is found and can be read. -/
def AdfsReadable (disk : SizedDisk) (data : AdfsData) (indaddr i : ℕ) : Prop :=
  ∃ block, adfsBlockMap data indaddr (i / data.sectorSize) = done block
    ∧ disk.Holds (block * data.sectorSize + i % data.sectorSize)

section Read

variable {disk : SizedDisk} {data : AdfsData} {indaddr : ℕ}

theorem SizedDisk.read_holds {pos len : ℕ} (h : ∀ i < len, disk.Holds (pos + i)) (hlen : 0 < len) :
    disk.read pos len = .ok (disk.bytes.from pos) := by
  rw [SizedDisk.read]
  cases hsectors : disk.sectors with
  | none => rfl
  | some sectors =>
    have hlast := h (len - 1) (by omega) sectors hsectors
    exact if_pos (by omega)

theorem SizedDisk.holds_of_read {pos len : ℕ} {p : Buf} (h : disk.read pos len = .ok p) :
    ∀ i < len, disk.Holds (pos + i) := by
  intro i hi sectors hsectors
  rw [SizedDisk.read, hsectors] at h
  dsimp only at h
  split_ifs at h
  omega

/-- A search ends with a block or an error, whatever the map has. -/
theorem adfsMapLookup_ends {fragId k : ℕ} : (∃ block, adfsMapLookup data fragId k = done block)
    ∨ adfsMapLookup data fragId k = failed (adfsNotFound fragId k) := by
  rw [adfsMapLookup]
  split_ifs
  · exact Or.inr rfl
  · rcases @adfsMapPasses_spec data fragId k (data.startZone fragId) data.nzones 0
        (adfsToBits data.map2blk k) with ⟨-, hrun⟩ | ⟨-, -, -, off, b, -, -, -, hrun⟩
    · exact Or.inr hrun
    · rw [hrun, adfsBlockAt]
      cases data.legal _ with
      | none => exact Or.inr rfl
      | some block => exact Or.inl ⟨block, rfl⟩

theorem AdfsData.sectorSize_pos (data : AdfsData) : 0 < data.sectorSize := Nat.two_pow_pos _

theorem adfs_sector_part {cur i : ℕ} (hi : i < data.sectorSize - cur % data.sectorSize) :
    (cur + i) / data.sectorSize = cur / data.sectorSize
      ∧ (cur + i) % data.sectorSize = cur % data.sectorSize + i := by
  have hpos := data.sectorSize_pos
  have hlt : cur % data.sectorSize + i < data.sectorSize := by omega
  have hsplit : cur + i = cur % data.sectorSize + i + data.sectorSize * (cur / data.sectorSize) := by
    have hdiv := Nat.div_add_mod cur data.sectorSize
    omega
  refine ⟨?_, ?_⟩
  · rw [hsplit, Nat.add_mul_div_left _ _ hpos, Nat.div_eq_of_lt hlt, Nat.zero_add]
  · rw [hsplit, Nat.add_mul_mod_self_left, Nat.mod_eq_of_lt hlt]

/-- A read ends. It succeeds if every byte is found and can be read, and gives the bytes. -/
theorem adfsReadRounds_iff {rounds cur len : ℕ} (hrounds : len < rounds) :
    (adfsReadRounds disk data indaddr rounds cur len).Ends (fun _ => True)
    ∧ ∀ bs, adfsReadRounds disk data indaddr rounds cur len = done bs ↔
      (∀ i, cur ≤ i → i < cur + len → AdfsReadable disk data indaddr i)
      ∧ bs = (List.range' cur len).map (adfsByte disk data indaddr) := by
  induction rounds generalizing cur len with
  | zero => omega
  | succ rounds ih =>
    rw [adfsReadRounds]
    by_cases hlen : len = 0
    · subst hlen
      rw [if_pos rfl]
      refine ⟨trivial, fun bs => ⟨fun h => ⟨fun i hlow hhigh => by omega, ?_⟩, fun h => ?_⟩⟩
      · cases h
        rfl
      · rw [h.2]
        rfl
    rw [if_neg hlen]
    dsimp only
    have hpos := data.sectorSize_pos
    have hmod := Nat.mod_lt cur hpos
    obtain ⟨amount, hamount⟩ : ∃ amount, amount = min (data.sectorSize - cur % data.sectorSize) len :=
      ⟨_, rfl⟩
    rw [← hamount]
    have hpart := fun i (hi : i < amount) => @adfs_sector_part data cur i (by omega)
    obtain ⟨rest, rfl⟩ : ∃ rest, len = amount + rest := ⟨len - amount, by omega⟩
    rw [Nat.add_sub_cancel_left]
    obtain ⟨hends, hrest⟩ := @ih (cur + amount) rest (by omega)
    rcases @adfsMapLookup_ends data (indaddr / 2 ^ 8)
        (data.shared indaddr (cur / data.sectorSize)) with ⟨block, hblock⟩ | hblock
    · have hblock : adfsBlockMap data indaddr (cur / data.sectorSize) = done block := hblock
      have hmap := fun i (hi : i < amount) =>
        (congrArg (adfsBlockMap data indaddr) (hpart i hi).1).trans hblock
      rw [hblock, done_bind, adfsDiskRead]
      cases hread : disk.read (block * data.sectorSize + cur % data.sectorSize) amount with
      | error e =>
        refine ⟨trivial, fun bs => ⟨(fun h => by cases h), fun h => ?_⟩⟩
        have hheld := @SizedDisk.read_holds disk (block * data.sectorSize + cur % data.sectorSize)
          amount (fun i hi => by
            obtain ⟨block', hblock', hholds⟩ := h.1 (cur + i) (by omega) (by omega)
            obtain rfl : block = block' := by
              have heq := (hmap i hi).symm.trans hblock'
              cases heq
              rfl
            rw [(hpart i hi).2] at hholds
            rwa [Nat.add_assoc]) (by omega)
        rw [hread] at hheld
        cases hheld
      | ok out =>
        have hbytes : out.list 0 amount
            = (List.range' cur amount).map (adfsByte disk data indaddr) := by
          rw [SizedDisk.read_eq_ok hread, Buf.list_from, Buf.list]
          refine List.ext_getElem (by simp) fun i hi _ => ?_
          have hi : i < amount := by simpa using hi
          simp only [List.getElem_map, List.getElem_range', Nat.one_mul]
          rw [adfsByte, hmap i hi, (hpart i hi).2, Nat.add_assoc]
        have hreadable : ∀ i < amount, AdfsReadable disk data indaddr (cur + i) := fun i hi => by
          refine ⟨block, hmap i hi, ?_⟩
          rw [(hpart i hi).2, ← Nat.add_assoc]
          exact SizedDisk.holds_of_read hread i hi
        rw [ofExcept_ok, done_bind]
        refine ⟨hends.bind fun _ _ => trivial, fun bs => ⟨fun h => ?_, fun h => ?_⟩⟩
        · cases htail : adfsReadRounds disk data indaddr rounds (cur + amount) rest with
          | done tail =>
            rw [htail] at h
            cases h
            obtain ⟨hall, rfl⟩ := (hrest tail).mp htail
            refine ⟨fun i hlow hhigh => ?_, ?_⟩
            · rcases Nat.lt_or_ge i (cur + amount) with hlt | hge
              · obtain ⟨j, rfl⟩ := Nat.exists_eq_add_of_le hlow
                exact hreadable j (by omega)
              · exact hall i hge (by omega)
            · rw [hbytes, ← List.map_append, List.range'_append_1]
          | failed e =>
            rw [htail] at h
            cases h
          | fault =>
            rw [htail] at h
            cases h
          | deep =>
            rw [htail] at h
            cases h
        · rw [(hrest _).mpr ⟨fun i hlow hhigh => h.1 i (by omega) (by omega), rfl⟩, done_bind, hbytes,
            ← List.map_append, List.range'_append_1, h.2]
    · have hblock : adfsBlockMap data indaddr (cur / data.sectorSize) = failed _ := hblock
      rw [hblock, failed_bind]
      refine ⟨trivial, fun bs => ⟨(fun h => by cases h), fun h => ?_⟩⟩
      obtain ⟨block, hfound, -⟩ := h.1 cur (Nat.le_refl cur) (by omega)
      rw [hblock] at hfound
      cases hfound

variable {pos len : ℕ}

theorem adfsReadObject_iff {bs : List UInt8} : adfsReadObject disk data indaddr pos len = done bs ↔
    (∀ i, pos ≤ i → i < pos + len → AdfsReadable disk data indaddr i)
    ∧ bs = (List.range' pos len).map (adfsByte disk data indaddr) :=
  (adfsReadRounds_iff (Nat.lt_succ_self len)).2 bs

theorem adfsReadObject_ends : (adfsReadObject disk data indaddr pos len).Ends (fun _ => True) :=
  (adfsReadRounds_iff (Nat.lt_succ_self len)).1

/-- A read in two parts gives the same bytes. -/
theorem adfsReadObject_add {len' : ℕ} {bs : List UInt8} :
    adfsReadObject disk data indaddr pos (len + len') = done bs ↔
      ∃ xs ys, adfsReadObject disk data indaddr pos len = done xs
        ∧ adfsReadObject disk data indaddr (pos + len) len' = done ys ∧ bs = xs ++ ys := by
  simp only [adfsReadObject_iff]
  constructor
  · rintro ⟨hall, rfl⟩
    exact ⟨_, _, ⟨fun i hlow hhigh => hall i hlow (by omega), rfl⟩,
      ⟨fun i hlow hhigh => hall i (by omega) (by omega), rfl⟩,
      by rw [← List.map_append, List.range'_append_1]⟩
  · rintro ⟨_, _, ⟨hfirst, rfl⟩, ⟨hsecond, rfl⟩, rfl⟩
    refine ⟨fun i hlow hhigh => ?_, by rw [← List.map_append, List.range'_append_1]⟩
    rcases Nat.lt_or_ge i (pos + len) with hlt | hge
    · exact hfirst i hlow hlt
    · exact hsecond i hge (by omega)

end Read

end FsRover
