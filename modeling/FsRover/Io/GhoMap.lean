import Mathlib.Data.List.GetD
import FsRover.Io.Gho

/-!
# What the NTFS volume of a Ghost image holds

The extents are recorded in the order of the stream, each behind the ones before it. The sort and
the pass that removes overlaps leave each byte to the extent that starts lowest, the younger of two
that start together. That is the copy stored last when no extent is shadowed. A read finds the
extent, then the block of the stream, and cuts at the end of both.

## Main definitions

* `FsRover.GhoRecorded` : what holds of the extents while they are recorded.

## Main results

* `FsRover.ghoNtfsPread_spec`, `FsRover.ghoReadsExact` : reads of the stream and of the volume.
* `FsRover.ghoRecordExtents_recorded` : the recorded extents lie in the stream, one behind the other.
* `FsRover.gho_exact_iff` : the table is exact if and only if no recorded extent is shadowed.
-/

namespace FsRover

open Guards Extents Overlay History

variable {img : GhoImage}

/-! ### Blocks -/

theorem GhoBlocksFrom.ascending {lo hi : ℕ} {bs : List GhoNtfsBlock} (h : GhoBlocksFrom lo hi bs) :
    Ascending GhoNtfsBlock.logical GhoNtfsBlock.len lo hi bs := by
  induction bs generalizing lo with
  | nil => exact Nat.le_of_eq h
  | cons b bs ih =>
    obtain ⟨hlo, hpos, hrest⟩ := h
    exact ⟨hlo.ge, hpos, hlo ▸ ih hrest⟩

theorem GhoBlocksFrom.drop {lo hi : ℕ} {bs : List GhoNtfsBlock} (h : GhoBlocksFrom lo hi bs) {i : ℕ}
    {b : GhoNtfsBlock} (hb : bs[i]? = some b) : GhoBlocksFrom b.logical hi (bs.drop i) := by
  induction bs generalizing lo i with
  | nil => cases hb
  | cons c cs ih =>
    cases i with
    | zero =>
      obtain rfl := Option.some.inj hb
      exact ⟨rfl, h.2.1, h.1 ▸ h.2.2⟩
    | succ i => exact ih h.2.2 hb

theorem ghoStreamByte_of_covers {block : GhoNtfsBlock} (hb : block ∈ img.blocks) {x : ℕ}
    (hx : Covers GhoNtfsBlock.logical GhoNtfsBlock.len block x) :
    ghoStreamByte img x = some (img.dec.out block.phys (x - block.logical)) := by
  rw [ghoStreamByte, find_of_ascending img.contiguous.ascending hb hx, Option.map_some]

/-! ### Reading the stream -/

theorem ghoCached_none {blkBuf : Buf} {calls : ℕ} : GhoCached img ⟨GHO_CACHE_NONE, blkBuf, calls⟩ := by
  intro block hblock
  have hlt := (List.getElem?_eq_some_iff.mp hblock).1
  have hcount := img.count_le
  simp only [GHO_CACHE_NONE, GHO_MAX_BLOCKS] at hlt hcount
  omega

theorem ghoLoadNtfsBlock_spec {s : GhoCache} (hs : GhoCached img s) {nr : ℕ} {block : GhoNtfsBlock}
    (hb : img.blocks[nr]? = some block) :
    GhoCached img (ghoLoadNtfsBlock img s nr).2
      ∧ ((ghoLoadNtfsBlock img s nr).1 = .ok () →
        ∀ i < block.len, (ghoLoadNtfsBlock img s nr).2.blkBuf i = img.dec.out block.phys i)
      ∧ (GhoSound img → (ghoLoadNtfsBlock img s nr).1 = .ok ()) := by
  have hget : img.blocks.getD nr default = block := by rw [List.getD_eq_getElem?_getD, hb]; rfl
  simp only [ghoLoadNtfsBlock, hget]
  by_cases hcached : s.cachedNr = nr
  · simp only [if_pos hcached]
    exact ⟨hs, fun _ => (hs block (hcached ▸ hb)).2, fun _ => trivial⟩
  · simp only [if_neg hcached]
    cases hfault : img.dec.fault s.calls block.phys with
    | some e =>
      refine ⟨ghoCached_none, (fun h => by cases h), fun hsound => ?_⟩
      rw [hsound.1] at hfault
      cases hfault
    | none =>
      dsimp only
      split_ifs with hsize
      · exact ⟨ghoCached_none, (fun h => by cases h), fun hsound =>
          absurd (hsound.2 block (List.mem_of_getElem? hb)) hsize⟩
      · rw [not_not] at hsize
        have hbuf : ∀ i < block.len,
            s.blkBuf.splice 0 (img.dec.outlen block.phys) (img.dec.out block.phys) i
              = img.dec.out block.phys i := fun i hi => by
          rw [Buf.splice, if_pos ⟨Nat.zero_le _, by omega⟩, Nat.sub_zero]
        refine ⟨fun block' hblock' => ?_, fun _ => hbuf, fun _ => rfl⟩
        obtain rfl := Option.some.inj (hb.symm.trans hblock')
        exact ⟨hsize, hbuf⟩

/-- The copy loop from a block on. It cannot fail when the first block has the offset. -/
theorem ghoNtfsCopy_spec : ∀ (bs : List GhoNtfsBlock) {nr lo : ℕ} {s : GhoCache} {off len : ℕ},
    img.blocks.drop nr = bs → GhoBlocksFrom lo img.streamSize bs → GhoCached img s →
      GhoCached img (ghoNtfsCopy img bs nr s off len).2
        ∧ (∀ out, (ghoNtfsCopy img bs nr s off len).1 = .ok out →
          out.length = len ∧ Agrees (fun x byte => ghoStreamByte img x = some byte) off out)
        ∧ (GhoSound img → off + len ≤ img.streamSize →
          (0 < len → lo ≤ off ∧ ∀ b, bs.head? = some b → off < b.logical + b.len) →
            ∃ out, (ghoNtfsCopy img bs nr s off len).1 = .ok out)
  | [], nr, lo, s, off, len, hdrop, hfrom, hs => by
    rw [ghoNtfsCopy]
    split_ifs with hlen
    · exact ⟨hs, fun out hout => by cases hout; exact ⟨hlen.symm, trivial⟩, fun _ _ _ => ⟨_, rfl⟩⟩
    · refine ⟨hs, fun out hout => (by cases hout), fun _ hend hfirst => ?_⟩
      have hlo : lo = img.streamSize := hfrom
      have := (hfirst (by omega)).1
      omega
  | block :: bs, nr, lo, s, off, len, hdrop, hfrom, hs => by
    obtain ⟨hlo, hpos, hrest⟩ := hfrom
    have hb : img.blocks[nr]? = some block := by
      rw [← List.head?_drop, hdrop, List.head?_cons]
    have hnext : img.blocks.drop (nr + 1) = bs := by
      rw [← List.tail_drop, hdrop, List.tail_cons]
    rw [ghoNtfsCopy]
    split_ifs with hlen hgap
    · exact ⟨hs, fun out hout => by cases hout; exact ⟨hlen.symm, trivial⟩, fun _ _ _ => ⟨_, rfl⟩⟩
    · refine ⟨hs, fun out hout => (by cases hout), fun _ _ hfirst => ?_⟩
      obtain ⟨hge, hlt⟩ := hfirst (by omega)
      have := hlt block rfl
      omega
    · obtain ⟨hload, hbytes, hsound⟩ := ghoLoadNtfsBlock_spec hs hb
      cases hl : ghoLoadNtfsBlock img s nr with
      | mk r s' =>
        rw [hl] at hload hbytes hsound
        cases r with
        | error e =>
          refine ⟨hload, fun out hout => (by cases hout), fun h _ _ => ?_⟩
          cases hsound h
        | ok u =>
          have hbytes := hbytes rfl
          have hrec := @ghoNtfsCopy_spec bs _ _ s' (off + min len (block.len - (off - block.logical)))
            (len - min len (block.len - (off - block.logical))) hnext hrest hload
          dsimp only
          cases hr : ghoNtfsCopy img bs (nr + 1) s' (off + min len (block.len - (off - block.logical)))
              (len - min len (block.len - (off - block.logical))) with
          | mk r s'' =>
            rw [hr] at hrec
            obtain ⟨hs'', hout, hlive⟩ := hrec
            have hlive' : GhoSound img → off + len ≤ img.streamSize → ∃ out, r = .ok out :=
              fun hsound hend => hlive hsound (by omega) fun hmore => ⟨by omega, fun c hc => by
                -- the rest begins where this block ends
                cases bs with
                | nil => cases hc
                | cons c' cs =>
                  obtain rfl := Option.some.inj hc
                  have hat := hrest.1
                  have hcpos := hrest.2.1
                  omega⟩
            cases r with
            | error e =>
              refine ⟨hs'', fun out hout => (by cases hout), fun hsound hend _ => ?_⟩
              obtain ⟨out, hout⟩ := hlive' hsound hend
              cases hout
            | ok rest =>
              obtain ⟨hlength, hagree⟩ := hout rest rfl
              refine ⟨hs'', fun out hout => ?_, fun _ _ _ => ⟨_, rfl⟩⟩
              obtain rfl := Except.ok.inj hout
              refine ⟨?_, agrees_append.mpr ⟨?_, ?_⟩⟩
              · rw [List.length_append, length_slice, hlength]
                omega
              · refine agrees_iff_getElem.mpr fun i hi => ?_
                rw [length_slice] at hi
                rw [getElem_slice, hbytes _ (by omega),
                  ghoStreamByte_of_covers (List.mem_of_getElem? hb) ⟨by omega, by omega⟩]
                congr 2
                omega
              · rw [length_slice]
                exact hagree

/-- A read of the stream keeps the cache right, returns the bytes of the stream, and does not fail
inside it when the blocks can be decoded. -/
theorem ghoNtfsPread_spec {s : GhoCache} (hs : GhoCached img s) (off len : ℕ) :
    GhoCached img (ghoNtfsPread img s off len).2
      ∧ (∀ out, (ghoNtfsPread img s off len).1 = .ok out → off + len ≤ img.streamSize
        ∧ out.length = len ∧ Agrees (fun x byte => ghoStreamByte img x = some byte) off out)
      ∧ (GhoSound img → off + len ≤ img.streamSize →
        ∃ out, (ghoNtfsPread img s off len).1 = .ok out) := by
  rw [ghoNtfsPread]
  set p : ℕ → Bool := fun i => decide ((img.blocks.getD i default).logical ≤ off) with hp
  set lo := Bisect.search p img.blocks.length with hlo
  have hle : lo ≤ img.blocks.length := Bisect.search_le _ _
  dsimp only
  split_ifs with hout hfirst
  · exact ⟨hs, fun out h => (by cases h), fun _ hend => by omega⟩
  · refine ⟨hs, fun out h => (by cases h), fun _ hend => ?_⟩
    -- the first block begins at zero
    cases hblocks : img.blocks with
    | nil =>
      have hempty := img.contiguous
      rw [hblocks] at hempty
      have hzero : 0 = img.streamSize := hempty
      omega
    | cons b bs =>
      have hstart := img.contiguous
      rw [hblocks] at hstart
      have hnot := Bisect.not_search (p := p) (n := img.blocks.length) (by rw [← hlo, hblocks]; simp; omega)
      rw [← hlo, hfirst.1, hp, decide_eq_false_iff_not, hblocks] at hnot
      have hzero : b.logical = 0 := hstart.1
      simp [hzero] at hnot
  · rcases Nat.eq_zero_or_pos len with rfl | hlen
    · cases hd : img.blocks.drop (lo - 1) with
      | nil =>
        simp only [ghoNtfsCopy, if_true]
        exact ⟨hs, fun out h => by cases h; exact ⟨by omega, rfl, trivial⟩, fun _ _ => ⟨_, rfl⟩⟩
      | cons b bs =>
        simp only [ghoNtfsCopy, if_true]
        exact ⟨hs, fun out h => by cases h; exact ⟨by omega, rfl, trivial⟩, fun _ _ => ⟨_, rfl⟩⟩
    · have hpos : 0 < lo := by omega
      obtain ⟨block, hblock⟩ : ∃ block, img.blocks[lo - 1]? = some block :=
        ⟨_, List.getElem?_eq_getElem (by omega)⟩
      have hfrom := img.contiguous.drop hblock
      obtain ⟨hcached, hbytes, hlive⟩ := @ghoNtfsCopy_spec img _ _ _ s off len rfl hfrom hs
      refine ⟨hcached, fun out h => ⟨by omega, hbytes out h⟩, fun hsound hend =>
        hlive hsound hend fun _ => ?_⟩
      have hbefore := Bisect.pred_search (p := p) (n := img.blocks.length) hpos
      rw [← hlo, hp, decide_eq_true_eq, List.getD_eq_getElem?_getD, hblock] at hbefore
      refine ⟨hbefore, fun b hb => ?_⟩
      rw [List.head?_drop, hblock] at hb
      obtain rfl := Option.some.inj hb
      -- the block behind begins past the offset, or there is none
      rcases Nat.lt_or_ge lo img.blocks.length with hlt | hge
      · obtain ⟨c, hc⟩ : ∃ c, img.blocks[lo]? = some c := ⟨_, List.getElem?_eq_getElem hlt⟩
        have hnot := Bisect.not_search (p := p) (n := img.blocks.length) hlt
        rw [← hlo, hp, decide_eq_false_iff_not, List.getD_eq_getElem?_getD, hc] at hnot
        have hdrop : img.blocks.drop (lo - 1) = block :: c :: img.blocks.drop (lo + 1) := by
          obtain ⟨h₁, h₁'⟩ := List.getElem?_eq_some_iff.mp hblock
          obtain ⟨h₂, h₂'⟩ := List.getElem?_eq_some_iff.mp hc
          have hstep : lo - 1 + 1 = lo := by omega
          rw [List.drop_eq_getElem_cons h₁, h₁', hstep, List.drop_eq_getElem_cons h₂, h₂']
        rw [hdrop] at hfrom
        have hat : c.logical = block.logical + block.len := hfrom.2.2.1
        have hgt : ¬ c.logical ≤ off := hnot
        omega
      · have hdrop : img.blocks.drop (lo - 1) = [block] := by
          obtain ⟨h₁, h₁'⟩ := List.getElem?_eq_some_iff.mp hblock
          have hstep : lo - 1 + 1 = lo := by omega
          rw [List.drop_eq_getElem_cons h₁, h₁', hstep, List.drop_eq_nil_of_le hge]
        rw [hdrop] at hfrom
        have hend' : block.logical + block.len = img.streamSize := hfrom.2.2
        omega

/-! ### Reading the volume -/

/-- The extent that a read finds covers the offset, and no extent covers the bytes up to the next one
where it finds none. -/
theorem ghoFindExtent_spec {table : List GhoNtfsExtent} {hi : ℕ}
    (hasc : Ascending GhoNtfsExtent.disk GhoNtfsExtent.len 0 hi table) {off : ℕ}
    {r : Option GhoNtfsExtent} {lo : ℕ} (h : ghoFindExtent table off = (r, lo)) :
    match r with
    | some e => e ∈ table ∧ Covers GhoNtfsExtent.disk GhoNtfsExtent.len e off
    | none => (∀ e, table[lo]? = some e → off < e.disk)
        ∧ ∀ x, off ≤ x → (∀ e, table[lo]? = some e → x < e.disk) →
          ∀ e ∈ table, ¬ Covers GhoNtfsExtent.disk GhoNtfsExtent.len e x := by
  set p : ℕ → Bool := fun i => decide ((table.getD i default).disk ≤ off) with hp
  obtain ⟨hr, rfl⟩ := Prod.mk.inj h
  rw [← hp] at hr
  simp only [← hp]
  set lo := Bisect.search p table.length with hlo
  have hle : lo ≤ table.length := Bisect.search_le _ _
  split_ifs at hr with hcond
  · obtain ⟨hne, hlast⟩ := hcond
    have hbefore := Bisect.pred_search (p := p) (n := table.length) (Nat.pos_of_ne_zero hne)
    rw [← hlo, hp, decide_eq_true_eq] at hbefore
    subst hr
    refine ⟨?_, hbefore, hlast⟩
    rw [List.getD_eq_getElem _ _ (by omega)]
    exact List.getElem_mem _
  · subst hr
    have hafter : ∀ e, table[lo]? = some e → off < e.disk := fun e he => by
      have hlt := (List.getElem?_eq_some_iff.mp he).1
      have hnot := Bisect.not_search (p := p) (n := table.length) hlt
      rw [← hlo, hp, decide_eq_false_iff_not, List.getD_eq_getElem?_getD, he] at hnot
      exact Nat.lt_of_not_le hnot
    refine ⟨hafter, fun x hx hgap e he => ?_⟩
    refine IsFirstAfter.not_covered ⟨hle, fun i e hi hie => ?_, fun e he => ?_⟩ hasc hx hgap he
    · -- the extents before it end no later than the last of them
      have hlast : table[lo - 1]? = some (table.getD (lo - 1) default) := by
        rw [List.getD_eq_getElem _ _ (by omega), List.getElem?_eq_getElem]
      have hend := hasc.end_le (i := i) (j := lo - 1) (by omega) hie hlast
      have hnot : ¬ off < (table.getD (lo - 1) default).disk + (table.getD (lo - 1) default).len :=
        fun hlt => hcond ⟨by omega, hlt⟩
      omega
    · have := hafter e he
      omega

/-- Reads of a table without overlaps are exact when it lies in the stream. -/
theorem ghoReadsExact {table : List GhoNtfsExtent} {hi : ℕ}
    (hasc : Ascending GhoNtfsExtent.disk GhoNtfsExtent.len 0 hi table)
    (hin : ∀ e ∈ table, e.stream + e.len ≤ img.streamSize) : GhoReadsExact img table := by
  intro s hs off len
  rw [ghoReadNtfs]
  cases hf : ghoFindExtent table off with
  | mk r lo =>
    have hspec := ghoFindExtent_spec hasc hf
    cases r with
    | some e =>
      obtain ⟨he, hcov⟩ := hspec
      obtain ⟨hle, hlt⟩ := hcov
      obtain ⟨hcached, hbytes, hlive⟩ := ghoNtfsPread_spec hs (e.stream + (off - e.disk))
        (min len (e.len - (off - e.disk)))
      refine ⟨hcached, fun bs hok => ?_, fun hsound => hlive hsound ?_⟩
      · obtain ⟨-, hlength, hagree⟩ := hbytes bs hok
        refine ⟨by omega, fun hlen => by omega, agrees_iff_getElem.mpr fun i hi => ?_⟩
        have hbyte := agrees_iff_getElem.mp hagree i hi
        have hfind : find GhoNtfsExtent.disk GhoNtfsExtent.len table (off + i) = some e :=
          find_of_ascending hasc he ⟨by omega, by omega⟩
        have hat : e.at (off + i) = e.stream + (off - e.disk) + i := by
          simp only [GhoNtfsExtent.at]
          omega
        rw [ghoVolumeByte, hfind, ← hbyte, ← hat]
      · have := hin e he
        omega
    | none =>
      obtain ⟨hafter, hgap⟩ := hspec
      refine ⟨hs, fun bs hok => ?_, fun _ => ⟨_, rfl⟩⟩
      obtain rfl := Except.ok.inj hok
      rw [List.length_replicate]
      have hnext : ∀ e, table[lo]? = some e → table.getD lo default = e := fun e he => by
        rw [List.getD_eq_getElem?_getD, he]
        rfl
      refine ⟨by split_ifs <;> omega, fun hlen => ?_, agrees_iff_getElem.mpr fun i hi => ?_⟩
      · split_ifs with hlt
        · have hgt := hafter _ (List.getElem?_eq_getElem hlt)
          rw [hnext _ (List.getElem?_eq_getElem hlt)]
          omega
        · exact hlen
      · rw [List.length_replicate] at hi
        have hnone : find GhoNtfsExtent.disk GhoNtfsExtent.len table (off + i) = none := by
          refine find_eq_none_iff.mpr (hgap (off + i) (Nat.le_add_right _ _) fun e he => ?_)
          have hlt := (List.getElem?_eq_some_iff.mp he).1
          rw [if_pos hlt, hnext e he] at hi
          omega
        rw [ghoVolumeByte, hnone, List.getElem_replicate]

/-! ### The recorded extents -/

/-- What holds while the extents are recorded: they follow the stream up to the place reached, and
none wraps. A run may end behind the stream, but the next packet is then not read. -/
structure GhoRecorded (img : GhoImage) (b : GhoBuild) : Prop where
  streams : Ascending GhoNtfsExtent.stream GhoNtfsExtent.len 0 b.pos b.extents
  disks : ∀ e ∈ b.extents, e.disk + e.len < 2 ^ 64
  pos_le : b.pos ≤ 2 * img.streamSize

/-- The place moves on and the extents stay. -/
def GhoBuild.Moved (b b' : GhoBuild) : Prop := b'.extents = b.extents ∧ b.pos ≤ b'.pos

variable {b b' : GhoBuild}

theorem GhoRecorded.moved (hb : GhoRecorded img b) (hmoved : b.Moved b')
    (hpos : b'.pos ≤ 2 * img.streamSize) : GhoRecorded img b' where
  streams := hmoved.1 ▸ hb.streams.mono (Nat.le_refl 0) hmoved.2
  disks := hmoved.1 ▸ hb.disks
  pos_le := hpos

theorem ghoRead_spec {off len : ℕ} {p : Buf} (h : ghoRead img b off len = .ok (p, b')) :
    off + len ≤ img.streamSize ∧ b'.extents = b.extents ∧ b'.pos = b.pos := by
  rw [ghoRead] at h
  cases hread : ghoNtfsPread img b.cache off len with
  | mk r cache =>
    rw [hread] at h
    cases r with
    | error e => cases h
    | ok bs =>
      obtain ⟨-, rfl⟩ := Prod.mk.inj (Except.ok.inj h)
      refine ⟨?_, rfl, rfl⟩
      rw [ghoNtfsPread] at hread
      split_ifs at hread with hout
      · cases hread
      · omega

theorem ghoNtfsReadId_spec {id : ℕ × ℕ} (h : ghoNtfsReadId img b = .ok (id, b')) :
    b'.extents = b.extents ∧ b'.pos = b.pos + 16 ∧ b'.pos ≤ img.streamSize := by
  simp only [ghoNtfsReadId, bind_eq_ok_iff, Prod.exists, require_eq_ok_iff] at h
  obtain ⟨p, b₁, hread, id', value, -, h⟩ := h
  obtain ⟨-, rfl⟩ := Prod.mk.inj (Except.ok.inj h)
  obtain ⟨hle, hext, hpos⟩ := ghoRead_spec hread
  exact ⟨hext, by dsimp only; omega, by dsimp only; omega⟩

theorem ghoNtfsReadDataPacket_spec {value : ℕ} (h : ghoNtfsReadDataPacket img b = .ok (value, b')) :
    b'.extents = b.extents ∧ b'.pos = b.pos + 10 ∧ b'.pos ≤ img.streamSize := by
  simp only [ghoNtfsReadDataPacket, bind_eq_ok_iff, Prod.exists, refuseIf_eq_ok_iff, exists_const] at h
  obtain ⟨p, b₁, hread, -, h⟩ := h
  obtain ⟨-, rfl⟩ := Prod.mk.inj (Except.ok.inj h)
  obtain ⟨hle, hext, hpos⟩ := ghoRead_spec hread
  exact ⟨hext, by dsimp only; omega, by dsimp only; omega⟩

theorem ghoNtfsSkipCrc_spec (h : ghoNtfsSkipCrc img b = .ok b') :
    b.Moved b' ∧ (b'.pos = b.pos ∨ b'.pos ≤ img.streamSize) := by
  simp only [ghoNtfsSkipCrc] at h
  split_ifs at h with hend
  · obtain rfl := Except.ok.inj h
    exact ⟨⟨rfl, Nat.le_refl _⟩, .inl rfl⟩
  · simp only [bind_eq_ok_iff, Prod.exists] at h
    obtain ⟨p, b₁, hread, h⟩ := h
    obtain ⟨-, hext, hpos⟩ := ghoRead_spec hread
    split_ifs at h with hcrc hshort
    · obtain rfl := Except.ok.inj h
      exact ⟨⟨hext, hpos.ge⟩, .inl hpos⟩
    · simp only [bind_eq_ok_iff, Prod.exists] at h
      obtain ⟨q, b₂, hread₂, h⟩ := h
      obtain ⟨hle₂, hext₂, hpos₂⟩ := ghoRead_spec hread₂
      split_ifs at h
      · obtain rfl := Except.ok.inj h
        exact ⟨⟨hext₂.trans hext, (hpos₂.trans hpos).ge⟩, .inl (hpos₂.trans hpos)⟩
      · obtain rfl := Except.ok.inj h
        exact ⟨⟨hext₂.trans hext, by dsimp only; omega⟩, .inr (by dsimp only; omega)⟩

theorem ghoNtfsInferClusterSize_spec {clusters : ℕ}
    (h : ghoNtfsInferClusterSize img b clusters = .ok b') :
    b'.extents = b.extents ∧ b'.pos = b.pos := by
  simp only [ghoNtfsInferClusterSize, bind_eq_ok_iff, Prod.exists, refuseIf_eq_ok_iff,
    exists_const] at h
  obtain ⟨found, cache, -, -, h⟩ := h
  obtain rfl := Except.ok.inj h
  exact ⟨rfl, rfl⟩

theorem ghoNtfsCheckBoot_spec (h : ghoNtfsCheckBoot img b = .ok b') :
    b'.extents = b.extents ∧ b'.pos = b.pos := by
  simp only [ghoNtfsCheckBoot, bind_eq_ok_iff, Prod.exists, refuseIf_eq_ok_iff, exists_const] at h
  obtain ⟨p, b₁, hread, -, -, -, -, h⟩ := h
  obtain rfl := Except.ok.inj h
  exact (ghoRead_spec hread).2

/-- A fragment is recorded at the place reached and moves behind it. -/
theorem GhoRecorded.fragment (hb : GhoRecorded img b) {disk take : ℕ} (htake : 0 < take)
    (hdisk : disk + take < 2 ^ 64) (hpos : b.pos + take ≤ 2 * img.streamSize)
    (hext : b'.extents = b.extents ++ [⟨disk, b.pos, take⟩]) (hpos' : b'.pos = b.pos + take) :
    GhoRecorded img b' where
  streams := by
    rw [hext, hpos']
    exact hb.streams.append ⟨Nat.le_refl _, htake, Nat.le_refl _⟩
  disks := fun e he => by
    rw [hext] at he
    rcases List.mem_append.mp he with he | he
    · exact hb.disks e he
    · rw [List.mem_singleton.mp he]
      exact hdisk
  pos_le := hpos'.trans_le hpos

theorem ghoNtfsFragments_spec : ∀ (fuel : ℕ) {b b' : GhoBuild} {disk left : ℕ},
    GhoRecorded img b → disk + left < 2 ^ 64 → left ≤ img.streamSize →
      b.pos + left ≤ 2 * img.streamSize → ghoNtfsFragments img fuel b disk left = .ok b' →
        GhoRecorded img b' ∧ b.pos ≤ b'.pos
  | 0, b, b', disk, left, hb, _, _, _, h => by
    obtain rfl := Except.ok.inj h
    exact ⟨hb, Nat.le_refl _⟩
  | fuel + 1, b, b', disk, left, hb, hdisk, hleft, hpos, h => by
    rw [ghoNtfsFragments] at h
    split_ifs at h with hzero
    · obtain rfl := Except.ok.inj h
      exact ⟨hb, Nat.le_refl _⟩
    · have htake : 0 < min left GHO_NTFS_FRAGMENT := by
        simp only [GHO_NTFS_FRAGMENT]
        omega
      have hle : min left GHO_NTFS_FRAGMENT ≤ left := Nat.min_le_left _ _
      generalize min left GHO_NTFS_FRAGMENT = take at h htake hle
      simp only [ghoAddNtfsExtent, bind_eq_ok_iff, refuseIf_eq_ok_iff, exists_const] at h
      obtain ⟨b₁, ⟨-, hadd⟩, h⟩ := h
      obtain rfl := Except.ok.inj hadd
      obtain ⟨b₂, ⟨hext₂, hpos₂⟩, b₃, hskip, h⟩ : ∃ b₂ : GhoBuild,
          (b₂.extents = b.extents ++ [⟨disk, b.pos, take⟩] ∧ b₂.pos = b.pos) ∧
          ∃ b₃, ghoNtfsSkipCrc img { b₂ with pos := b₂.pos + take } = .ok b₃
            ∧ ghoNtfsFragments img fuel b₃ (disk + take) (left - take) = .ok b' := by
        split_ifs at h with hboot
        · rw [bind_eq_ok_iff] at h
          obtain ⟨b₂, hcheck, h⟩ := h
          exact ⟨b₂, ghoNtfsCheckBoot_spec hcheck, bind_eq_ok_iff.mp h⟩
        · simp only [bind_eq_ok_iff, Except.ok.injEq, exists_eq_left'] at h
          exact ⟨{ b with extents := b.extents ++ [⟨disk, b.pos, take⟩] }, ⟨rfl, rfl⟩, h⟩
      have hfragment : GhoRecorded img { b₂ with pos := b₂.pos + take } :=
        hb.fragment htake (by omega) (by omega) hext₂ (by dsimp only; omega)
      obtain ⟨hmoved, hskipped⟩ := ghoNtfsSkipCrc_spec hskip
      have hmoved' := hmoved.2
      dsimp only at hmoved' hskipped
      obtain ⟨hb', hle'⟩ := ghoNtfsFragments_spec fuel (hfragment.moved hmoved (by omega)) (by omega)
        (by omega) (by omega) h
      exact ⟨hb', by omega⟩

theorem ghoNtfsMapRun_spec {lcn : ℤ} {clusters : ℕ} (hb : GhoRecorded img b)
    (h : ghoNtfsMapRun img b lcn clusters = .ok b') : GhoRecorded img b' ∧ b.pos ≤ b'.pos := by
  simp only [ghoNtfsMapRun, bind_eq_ok_iff, Prod.exists, refuseIf_eq_ok_iff, exists_const] at h
  obtain ⟨-, stored, b₁, hpacket, -, h⟩ := h
  obtain ⟨hext₁, hpos₁, hin₁⟩ := ghoNtfsReadDataPacket_spec hpacket
  obtain ⟨b₂, ⟨hext₂, hpos₂⟩, -, hlong, hwrap, h⟩ : ∃ b₂ : GhoBuild,
      (b₂.extents = b₁.extents ∧ b₂.pos = b₁.pos) ∧ ¬ (2 ^ 64 - 1) / b₂.clusterSize < clusters ∧
      ¬ (sub64 img.streamSize b₂.pos < clusters * b₂.clusterSize
        ∨ (2 ^ 64 - 1) / b₂.clusterSize < lcn.toNat)
      ∧ ¬ 2 ^ 64 - 1 - clusters * b₂.clusterSize < lcn.toNat * b₂.clusterSize
      ∧ ghoNtfsFragments img (clusters * b₂.clusterSize / GHO_NTFS_FRAGMENT + 1) b₂
        (lcn.toNat * b₂.clusterSize) (clusters * b₂.clusterSize) = .ok b' := by
    split_ifs at h with hsize
    · rw [bind_eq_ok_iff] at h
      obtain ⟨b₂, hinfer, h⟩ := h
      simp only [bind_eq_ok_iff, refuseIf_eq_ok_iff, exists_const] at h
      exact ⟨b₂, ghoNtfsInferClusterSize_spec hinfer, h⟩
    · simp only [bind_eq_ok_iff, refuseIf_eq_ok_iff, exists_const, Except.ok.injEq,
        exists_eq_left'] at h
      exact ⟨b₁, ⟨rfl, rfl⟩, h⟩
  have hsize := img.streamSize_lt
  rw [sub64_of_le (by omega) (by omega)] at hlong
  generalize clusters * b₂.clusterSize = bytes at *
  generalize lcn.toNat * b₂.clusterSize = disk at *
  have hb₂ : GhoRecorded img b₂ := hb.moved ⟨hext₂.trans hext₁, by omega⟩ (by omega)
  obtain ⟨hb', hle⟩ := ghoNtfsFragments_spec _ hb₂ (by omega) (by omega) (by omega) h
  exact ⟨hb', by omega⟩

theorem ghoNtfsRuns_spec {record : Buf} {endAt : ℕ} : ∀ (fuel : ℕ) {b b' : GhoBuild} {run : ℕ}
    {lcn : ℤ} {runIndex : ℕ}, GhoRecorded img b →
      ghoNtfsRuns img record endAt fuel b run lcn runIndex = .ok b' →
        GhoRecorded img b' ∧ b.pos ≤ b'.pos
  | 0, b, b', run, lcn, runIndex, hb, h => by
    obtain rfl := Except.ok.inj h
    exact ⟨hb, Nat.le_refl _⟩
  | fuel + 1, b, b', run, lcn, runIndex, hb, h => by
    rw [ghoNtfsRuns] at h
    split_ifs at h with hend
    · obtain rfl := Except.ok.inj h
      exact ⟨hb, Nat.le_refl _⟩
    · simp only [bind_eq_ok_iff, Prod.exists, refuseIf_eq_ok_iff, exists_const] at h
      obtain ⟨-, -, id, value, b₁, hid, -, h⟩ := h
      obtain ⟨hext₁, hpos₁, hin₁⟩ := ghoNtfsReadId_spec hid
      have hb₁ : GhoRecorded img b₁ := hb.moved ⟨hext₁, by omega⟩ (by omega)
      by_cases hoff : byteAt record run / 16 = 0
      · simp only [if_pos hoff] at h
        obtain ⟨hb', hle⟩ := ghoNtfsRuns_spec fuel hb₁ h
        exact ⟨hb', by omega⟩
      · simp only [if_neg hoff, bind_eq_ok_iff] at h
        obtain ⟨b₂, hrun, h⟩ := h
        obtain ⟨hb₂, hle₂⟩ := ghoNtfsMapRun_spec hb₁ hrun
        obtain ⟨hb', hle⟩ := ghoNtfsRuns_spec fuel hb₂ h
        exact ⟨hb', by omega⟩

/-- An attribute adds extents behind those that are recorded. -/
theorem ghoNtfsMapAttribute_spec {record : Buf} {attr : ℕ} (hb : GhoRecorded img b)
    (h : ghoNtfsMapAttribute img record attr b = .ok b') :
    GhoRecorded img b' ∧ b.pos ≤ b'.pos := by
  simp only [ghoNtfsMapAttribute, bind_eq_ok_iff, Prod.exists] at h
  obtain ⟨id, value, b₁, hid, h⟩ := h
  obtain ⟨hext₁, hpos₁, hin₁⟩ := ghoNtfsReadId_spec hid
  have hb₁ : GhoRecorded img b₁ := hb.moved ⟨hext₁, by omega⟩ (by omega)
  split_ifs at h with hskip
  · obtain ⟨hmoved, hpos⟩ := ghoNtfsSkipCrc_spec h
    exact ⟨hb₁.moved hmoved (by omega), by have := hmoved.2; omega⟩
  · simp only [bind_eq_ok_iff, refuseIf_eq_ok_iff, exists_const] at h
    obtain ⟨hb', hle⟩ := ghoNtfsRuns_spec _ hb₁ h.2
    exact ⟨hb', by omega⟩

theorem ghoNtfsAttributes_spec {record : Buf} {used : ℕ} : ∀ (fuel : ℕ) {b b' : GhoBuild} {attr : ℕ},
    GhoRecorded img b → ghoNtfsAttributes img record used fuel b attr = .ok b' →
      GhoRecorded img b' ∧ b.pos ≤ b'.pos
  | 0, b, b', attr, hb, h => by
    obtain rfl := Except.ok.inj h
    exact ⟨hb, Nat.le_refl _⟩
  | fuel + 1, b, b', attr, hb, h => by
    rw [ghoNtfsAttributes] at h
    by_cases hend : used < attr + 16 ∨ lostLe32 record attr = 0xffffffff
    · rw [if_pos hend] at h
      obtain rfl := Except.ok.inj h
      exact ⟨hb, Nat.le_refl _⟩
    · simp only [if_neg hend, bind_eq_ok_iff, refuseIf_eq_ok_iff, exists_const] at h
      obtain ⟨-, -, h⟩ := h
      by_cases hresident : byteAt record (attr + 8) ≠ 0
      · simp only [if_pos hresident, bind_eq_ok_iff] at h
        obtain ⟨b₁, hmap, h⟩ := h
        obtain ⟨hb₁, hle₁⟩ := ghoNtfsMapAttribute_spec hb hmap
        obtain ⟨hb', hle⟩ := ghoNtfsAttributes_spec fuel hb₁ h
        exact ⟨hb', by omega⟩
      · simp only [if_neg hresident] at h
        exact ghoNtfsAttributes_spec fuel hb h

theorem ghoNtfsRecord_spec {id : ℕ} (hb : GhoRecorded img b)
    (h : ghoNtfsRecord img id b = .ok b') : GhoRecorded img b' ∧ b.pos + 16 ≤ b'.pos := by
  simp only [ghoNtfsRecord, bind_eq_ok_iff, Prod.exists, refuseIf_eq_ok_iff, exists_const] at h
  obtain ⟨-, size, b₁, hpacket, -, record, b₂, hread, h⟩ := h
  obtain ⟨hext₁, hpos₁, hin₁⟩ := ghoNtfsReadDataPacket_spec hpacket
  obtain ⟨hin₂, hext₂, hpos₂⟩ := ghoRead_spec hread
  dsimp only at hext₁ hpos₁
  have hb₂ : GhoRecorded img { b₂ with pos := b₂.pos + size } :=
    hb.moved ⟨hext₂.trans hext₁, by dsimp only; omega⟩ (by dsimp only; omega)
  obtain ⟨b₃, ⟨hb₃, hle₃⟩, hskip⟩ : ∃ b₃, (GhoRecorded img b₃ ∧ b₂.pos + size ≤ b₃.pos)
      ∧ ghoNtfsSkipCrc img b₃ = .ok b' := by
    split_ifs at h with hfile
    · simp only [bind_eq_ok_iff] at h
      obtain ⟨fixed, -, b₃, hattrs, h⟩ := h
      exact ⟨b₃, ghoNtfsAttributes_spec _ hb₂ hattrs, h⟩
    · simp only [bind_eq_ok_iff, Except.ok.injEq, exists_eq_left'] at h
      exact ⟨_, ⟨hb₂, Nat.le_refl _⟩, h⟩
  obtain ⟨hmoved, hpos⟩ := ghoNtfsSkipCrc_spec hskip
  have hle := hmoved.2
  have hbound := hb₃.pos_le
  exact ⟨hb₃.moved hmoved (by omega), by omega⟩

theorem ghoNtfsRecords_spec : ∀ (fuel : ℕ) {b b' : GhoBuild} {records records' : ℕ},
    0 < fuel → (b.pos ≤ img.streamSize → img.streamSize < fuel + b.pos) → GhoRecorded img b →
      ghoNtfsRecords img fuel b records = .ok (records', b') →
        GhoRecorded img b' ∧ b'.pos ≤ img.streamSize
  | 0, b, b', records, records', hpos, _, _, _ => absurd hpos (Nat.lt_irrefl 0)
  | fuel + 1, b, b', records, records', _, hfuel, hb, h => by
    have hsize := img.streamSize_lt
    have hbound := hb.pos_le
    rw [ghoNtfsRecords] at h
    split_ifs at h with hend
    · obtain ⟨-, rfl⟩ := Prod.mk.inj (Except.ok.inj h)
      refine ⟨hb, Nat.le_of_not_lt fun hlt => ?_⟩
      simp only [sub64, u64] at hend
      omega
    · simp only [bind_eq_ok_iff, Prod.exists] at h
      obtain ⟨packet, b₁, hread, h⟩ := h
      obtain ⟨hin, hext, hpos⟩ := ghoRead_spec hread
      have hb₁ : GhoRecorded img b₁ := hb.moved ⟨hext, hpos.ge⟩ (by omega)
      cases hid : ghoNtfsIdPacket packet with
      | none =>
        simp only [hid] at h
        obtain ⟨-, rfl⟩ := Prod.mk.inj (Except.ok.inj h)
        exact ⟨hb₁, by omega⟩
      | some id =>
        simp only [hid, bind_eq_ok_iff] at h
        obtain ⟨b₂, hrecord, h⟩ := h
        obtain ⟨hb₂, hle₂⟩ := ghoNtfsRecord_spec hb₁ hrecord
        have := hfuel (by omega)
        exact ghoNtfsRecords_spec fuel (by omega) (fun _ => by omega) hb₂ h

/-- The recorded extents lie in the stream, one behind the other. -/
theorem ghoRecordExtents_recorded {cache : GhoCache} (h : ghoRecordExtents img cache = .ok b) :
    GhoRecorded img b ∧ b.pos ≤ img.streamSize := by
  simp only [ghoRecordExtents, bind_eq_ok_iff, Prod.exists, refuseIf_eq_ok_iff, exists_const] at h
  obtain ⟨records, b₁, hrun, -, h⟩ := h
  obtain rfl := Except.ok.inj h
  refine ghoNtfsRecords_spec _ (Nat.succ_pos _) (fun _ => by dsimp only; omega) ?_ hrun
  exact ⟨Nat.le_refl 0, fun e he => (by cases he), Nat.zero_le _⟩

/-! ### The table -/

theorem GhoNtfsExtent.at_cut (e : GhoNtfsExtent) (k x : ℕ) (hle : e.disk + k ≤ x) :
    (e.cut k).at x = e.at x := by
  simp only [GhoNtfsExtent.at, GhoNtfsExtent.cut]
  omega

/-- What the pass leaves of an extent lies in the stream where the extent does. -/
theorem ghoTrim_stream_le {hi : ℕ} : ∀ {es : List GhoNtfsExtent} {covered : ℕ},
    (∀ e ∈ es, e.stream + e.len ≤ hi) →
      ∀ e ∈ trim GhoNtfsExtent.disk GhoNtfsExtent.len .cut covered es, e.stream + e.len ≤ hi
  | [], covered, _, e, he => by cases he
  | a :: es, covered, h, e, he => by
    have hrest : ∀ e ∈ es, e.stream + e.len ≤ hi := fun e he => h e (List.mem_cons_of_mem _ he)
    have ha := h a List.mem_cons_self
    rw [trim] at he
    split_ifs at he with hlt hskip
    · exact ghoTrim_stream_le hrest e he
    · rcases List.mem_cons.mp he with rfl | he
      · simp only [GhoNtfsExtent.cut]
        omega
      · exact ghoTrim_stream_le hrest e he
    · rcases List.mem_cons.mp he with rfl | he
      · exact ha
      · exact ghoTrim_stream_le hrest e he

/-- The table that is built from the recorded extents is exact if and only if none of them is
shadowed. -/
theorem gho_exact_iff {cache : GhoCache} (h : ghoRecordExtents img cache = .ok b) :
    GhoExact img b.extents ↔
      Unshadowed GhoNtfsExtent.disk GhoNtfsExtent.len GhoNtfsExtent.stream b.extents := by
  obtain ⟨hb, hpos⟩ := ghoRecordExtents_recorded h
  have hperm := Heap.perm_map_sort GhoNtfsExtent.rank b.extents
  have hsorted := Heap.pairwise_map_sort GhoNtfsExtent.rank b.extents
  have hstarts : (ghoNtfsSortExtents b.extents).Pairwise fun a b => a.disk ≤ b.disk :=
    hsorted.imp fun h => by
      rcases rank_le_iff.mp h with hlt | ⟨heq, -⟩ <;> omega
  have hmem : ∀ e, e ∈ ghoNtfsSortExtents b.extents ↔ e ∈ b.extents := fun e => hperm.mem_iff
  have hstart : ∀ (e : GhoNtfsExtent) k, k < e.len → (e.cut k).disk = e.disk + k := fun _ _ _ => rfl
  have hlen : ∀ (e : GhoNtfsExtent) k, k < e.len → (e.cut k).len = e.len - k := fun _ _ _ => rfl
  have hvalue : ∀ (e : GhoNtfsExtent) k x, k < e.len → e.disk + k ≤ x → (e.cut k).at x = e.at x :=
    fun e k x _ => e.at_cut k x
  have hasc : Ascending GhoNtfsExtent.disk GhoNtfsExtent.len 0 (2 ^ 64)
      (ghoNtfsDropOverlaps (ghoNtfsSortExtents b.extents)) :=
    ascending_trim hstart hlen (Nat.zero_le _) fun e he =>
      ⟨(hb.streams.mem ((hmem e).mp he)).2.1, (hb.disks e ((hmem e).mp he)).le⟩
  have hcovers : ∀ x, (∃ e ∈ ghoNtfsDropOverlaps (ghoNtfsSortExtents b.extents),
      Covers GhoNtfsExtent.disk GhoNtfsExtent.len e x)
        ↔ ∃ e ∈ b.extents, Covers GhoNtfsExtent.disk GhoNtfsExtent.len e x := fun x => by
    simp only [← hmem]
    exact exists_covers_trim_iff hstart hlen hstarts
  have hreads : GhoReadsExact img (ghoNtfsDropOverlaps (ghoNtfsSortExtents b.extents)) :=
    ghoReadsExact hasc (ghoTrim_stream_le fun e he =>
      (hb.streams.mem ((hmem e).mp he)).2.2.trans hpos)
  have hlatest := trim_latest_iff hstart hlen hvalue hperm hsorted
    (fun a ha b hb' heq => hb.streams.covers_unique ha hb' ⟨Nat.le_refl _, by
        have := (hb.streams.mem ha).2.1
        omega⟩ ⟨heq.ge, by
        have := (hb.streams.mem hb').2.1
        omega⟩)
    (fun a ha b hb' x hax hbx heq => hb.streams.covers_unique ha hb' (x := a.at x)
      ⟨Nat.le_add_right _ _, by
        have := hax.1
        have := hax.2
        simp only [GhoNtfsExtent.at]
        omega⟩ ⟨heq ▸ Nat.le_add_right _ _, by
        have := hbx.1
        have := hbx.2
        rw [heq]
        simp only [GhoNtfsExtent.at]
        omega⟩)
  rw [← hlatest, GhoExact]
  exact ⟨fun h => h.2.2.1, fun h => ⟨⟨_, hasc⟩, hcovers, h, hreads⟩⟩

/-! ### A stream that stores a cluster twice -/

/-- One MFT record with an attribute of two runs, clusters 0 and 1 and then cluster 1 again. -/
def ghoTwiceStream : Buf :=
  Buf.ofFields [
    -- the packets of the record, its header and its attribute
    (0, [0x0e, 0x04, 0x80]), (15, [0x0f]), (16, [0x0f, 128]), (25, [0x0e]),
    (26, [0x46, 0x49, 0x4c, 0x45, 0x28, 0, 2]), (46, [0x30, 0, 0, 0, 0x78]),
    (74, [0x80, 0, 0, 0, 0x48, 0, 0, 0, 1]), (106, [0x40]), (138, [0x11, 2, 0, 0x11, 1, 1]),
    (154, [0x0e, 0x20, 0x80]), (169, [0x0f]),
    -- the first run with the boot sector
    (170, [0x0e, 2]), (185, [0x0f]), (186, [0x0f, 2]), (195, [0x0e]),
    (199, [0x4e, 0x54, 0x46, 0x53, 0x20, 0x20, 0x20, 0x20, 0, 2, 1]), (236, [4]),
    -- the second run
    (1220, [0x0e, 2]), (1227, [1]), (1235, [0x0f]), (1236, [0x0f, 1]), (1245, [0x0e])]

/-- The stream in one block that always decodes. -/
def ghoTwice : GhoImage where
  dec := ⟨fun _ => 1758, fun _ => ghoTwiceStream, fun _ _ => none, fun _ _ buf => buf⟩
  blocks := [⟨0, 0, 1758⟩]
  streamSize := 1758
  contiguous := ⟨rfl, by decide, rfl⟩
  streamSize_lt := by decide
  count_le := by decide

def ghoTwiceCache : GhoCache := ⟨GHO_CACHE_NONE, fun _ => 0, 0⟩

theorem ghoTwice_recorded : ∃ b, ghoRecordExtents ghoTwice ghoTwiceCache = .ok b
    ∧ b.extents = [⟨0, 196, 1024⟩, ⟨512, 1246, 512⟩] := by
  have hok : (ghoRecordExtents ghoTwice ghoTwiceCache).toOption.map GhoBuild.extents
      = some [⟨0, 196, 1024⟩, ⟨512, 1246, 512⟩] := by decide +kernel
  cases h : ghoRecordExtents ghoTwice ghoTwiceCache with
  | error e =>
    rw [h] at hok
    cases hok
  | ok b =>
    rw [h] at hok
    exact ⟨b, rfl, Option.some.inj hok⟩

theorem gho_exact_twice : ∃ b, ghoRecordExtents ghoTwice ghoTwiceCache = .ok b
    ∧ (GhoExact ghoTwice b.extents ↔
      Unshadowed GhoNtfsExtent.disk GhoNtfsExtent.len GhoNtfsExtent.stream b.extents) := by
  obtain ⟨b, hb, -⟩ := ghoTwice_recorded
  exact ⟨b, hb, gho_exact_iff hb⟩

/-- The table gives the older copy of cluster 1. -/
theorem gho_not_exact : ∃ b, ghoRecordExtents ghoTwice ghoTwiceCache = .ok b
    ∧ ¬ GhoExact ghoTwice b.extents := by
  obtain ⟨b, hb, hext⟩ := ghoTwice_recorded
  refine ⟨b, hb, fun h => ?_⟩
  have hlatest : Latest GhoNtfsExtent.disk GhoNtfsExtent.len GhoNtfsExtent.stream GhoNtfsExtent.at
      b.extents 512 1246 := by
    rw [hext]
    refine ⟨⟨512, 1246, 512⟩, by simp, by decide, rfl, fun e he _ => ?_⟩
    simp only [List.mem_cons, List.not_mem_nil, or_false] at he
    rcases he with rfl | rfl <;> decide
  have htable := (h.2.2.1 512 1246).mpr hlatest
  rw [hext] at htable
  exact absurd htable (by decide)

end FsRover
