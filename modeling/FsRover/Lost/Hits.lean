import FsRover.Lost.Steps

/-!
# The hits of the detectors

What every hit has in common, whichever detector gives it: it names a filesystem, its size fits in
64 bits, it starts on a sector when the place examined does, and its remaps move something.

## Main definitions

* `FsRover.LostHitOk` : these properties of a hit.

## Main results

* `FsRover.lostDetect_ok`, `FsRover.lostExamineEnd_ok` : the hits of both examinations have them.
* `FsRover.lostQuickHits_ok` : so do the hits of a candidate.
-/

namespace FsRover

variable {env : LostSearch}

/-- A hit that names a filesystem of a size that fits, with remaps that are not empty; it starts
on a sector if `aligned` holds. -/
structure LostHitOk (env : LostSearch) (aligned : Prop) (h : LostHit) : Prop where
  type : h.type ≠ .partition
  size : h.size < 2 ^ 64
  start : aligned → h.start % env.sectorSize = 0
  count : h.remap.length ≤ ROVER_LOST_REMAP_MAX
  length : ∀ r ∈ h.remap, r.length ≠ 0

/-- The hit of a verdict is such a hit; the entry of an extended boot record counts its sectors in
32 bits. -/
structure LostVerdictOk (env : LostSearch) (aligned : Prop) (v : Option LostVerdict) : Prop where
  hit : ∀ h, v = some (.hit h) → LostHitOk env aligned h
  ebr : ∀ first count, v = some (.ebr first count) → count < 2 ^ 32

variable {aligned : Prop}

theorem LostVerdictOk.none : LostVerdictOk env aligned none :=
  ⟨fun _ h => (nomatch h), fun _ _ h => (nomatch h)⟩

theorem LostVerdictOk.some {h : LostHit} (hh : LostHitOk env aligned h) :
    LostVerdictOk env aligned (some (.hit h)) := by
  refine ⟨fun h' heq => ?_, fun _ _ heq => ?_⟩
  · cases heq
    exact hh
  · cases heq

theorem LostVerdictOk.orElse {v w : Option LostVerdict} (hv : LostVerdictOk env aligned v)
    (hw : LostVerdictOk env aligned w) : LostVerdictOk env aligned (v <|> w) := by
  cases v with
  | none => simpa using hw
  | some v => simpa using hv

theorem LostVerdictOk.findSome {α : Type*} {f : α → Option LostVerdict}
    (hf : ∀ a, LostVerdictOk env aligned (f a)) (as : List α) :
    LostVerdictOk env aligned (as.findSome? f) := by
  refine ⟨fun h heq => ?_, fun first count heq => ?_⟩
  · obtain ⟨a, -, ha⟩ := List.exists_of_findSome?_eq_some heq
    exact (hf a).hit h ha
  · obtain ⟨a, -, ha⟩ := List.exists_of_findSome?_eq_some heq
    exact (hf a).ebr first count ha

theorem LostVerdictOk.map {α : Type*} {o : Option α} {f : α → LostHit}
    (hf : ∀ a, o = .some a → LostHitOk env aligned (f a)) :
    LostVerdictOk env aligned (o.map fun a => .hit (f a)) := by
  cases o with
  | none => exact .none
  | some a => exact .some (hf a rfl)

/-- A hit without remaps that starts at `s`. -/
theorem lostSetHit_ok {s size : ℕ} {type : LostType} {backup : Bool} (htype : type ≠ .partition)
    (hsize : size < 2 ^ 64) (hstart : aligned → s % env.sectorSize = 0) :
    LostHitOk env aligned (lostSetHit s size type backup) :=
  ⟨htype, hsize, hstart, Nat.zero_le _, fun _ h => absurd h List.not_mem_nil⟩

theorem LostHitOk.remap {h : LostHit} (hh : LostHitOk env aligned h) {target source length : ℕ}
    (hlength : length ≠ 0) : LostHitOk env aligned (lostRemap h target source length) := by
  unfold lostRemap
  split_ifs with hcount
  · refine ⟨hh.type, hh.size, hh.start, ?_, fun r hr => ?_⟩
    · rw [List.length_append]
      exact hcount
    · rcases List.mem_append.mp hr with hr | hr
      · exact hh.length r hr
      · rw [List.mem_singleton.mp hr]
        exact hlength
  · exact hh

/-! ### Sizes and types -/

theorem mul_lt_pow {a b m n : ℕ} (ha : a < 2 ^ m) (hb : b ≤ 2 ^ n) (hmn : m + n ≤ 64) :
    a * b < 2 ^ 64 := by
  calc a * b ≤ a * 2 ^ n := Nat.mul_le_mul_left _ hb
    _ < 2 ^ m * 2 ^ n := Nat.mul_lt_mul_of_pos_right ha (Nat.two_pow_pos n)
    _ = 2 ^ (m + n) := (Nat.pow_add _ _ _).symm
    _ ≤ 2 ^ 64 := Nat.pow_le_pow_right (by decide) hmn

theorem lostNtfs_spec {bs : Buf} {size bps : ℕ} (h : lostNtfs bs = some (size, bps)) :
    size < 2 ^ 64 ∧ bps ≠ 0 ∧ ∃ n, size = u64 (n * bps) := by
  unfold lostNtfs at h
  dsimp only at h
  split_ifs at h with _ hbps
  obtain ⟨rfl, rfl⟩ := Prod.mk.inj (Option.some.inj h)
  exact ⟨u64_lt _, by omega, _, rfl⟩

theorem lostFat_spec {bs : Buf} {ss : ℕ} (hss : ss ≤ 2 ^ 15) {type : LostType} {size : ℕ}
    (h : lostFat bs ss = some (type, size)) : type ≠ .partition ∧ size < 2 ^ 64 := by
  have htotal : (if lostLe16 bs 0x13 ≠ 0 then lostLe16 bs 0x13 else lostLe32 bs 0x20) < 2 ^ 32 := by
    have h₀ := lostLe16_lt bs 0x13
    have h₁ := lostLe32_lt bs 0x20
    split_ifs <;> omega
  unfold lostFat at h
  dsimp only at h
  generalize (if lostLe16 bs 0x13 ≠ 0 then lostLe16 bs 0x13 else lostLe32 bs 0x20) = total
    at h htotal
  generalize (if lostLe16 bs 0x16 ≠ 0 then lostLe16 bs 0x16 else lostLe32 bs 0x24) = fatLength at h
  have hsize := mul_lt_pow htotal hss (by decide)
  iterate 4 (rw [ite_eq_iff] at h; obtain ⟨-, h⟩ | ⟨-, h⟩ := h; · cases h)
  split at h
  · cases h
  · next found type' need hfound =>
    split_ifs at h
    obtain ⟨rfl, rfl⟩ := Prod.mk.inj (Option.some.inj h)
    refine ⟨?_, hsize⟩
    split_ifs at hfound <;> obtain ⟨rfl, -⟩ := Prod.mk.inj (Option.some.inj hfound) <;> simp

theorem lostExfat_spec {bs : Buf} {shift size : ℕ} (h : lostExfat bs = some (shift, size)) :
    size < 2 ^ 64 := by
  unfold lostExfat at h
  dsimp only at h
  split_ifs at h
  obtain ⟨-, rfl⟩ := Prod.mk.inj (Option.some.inj h)
  exact u64_lt _

theorem lostExt_spec {sb : Buf} {type : LostType} {size offset : ℕ}
    (h : lostExt sb = some (type, size, offset)) :
    type ≠ .partition ∧ size < 2 ^ 64 ∧ lostLe32 sb 0x18 ≤ 6
      ∧ lostExtBlocks sb < 2 ^ (54 - lostLe32 sb 0x18) ∧ lostLe32 sb 0x20 ≠ 0 := by
  unfold lostExt at h
  dsimp only at h
  rw [ite_eq_iff] at h
  obtain ⟨-, h⟩ | ⟨-, h⟩ := h
  · cases h
  rw [ite_eq_iff] at h
  obtain ⟨-, h⟩ | ⟨hguard, h⟩ := h
  · cases h
  obtain ⟨rfl, rfl, -⟩ : _ ∧ _ ∧ _ := by simpa only [Option.some.injEq, Prod.mk.injEq] using h
  refine ⟨?_, u64_lt _, by omega, by omega, by omega⟩
  split_ifs <;> simp

theorem lostXfs_spec {sb : Buf} {size agSize sector : ℕ}
    (h : lostXfs sb = some (size, agSize, sector)) : size < 2 ^ 64 ∧ sector ≠ 0 := by
  unfold lostXfs at h
  dsimp only at h
  split_ifs at h
  obtain ⟨rfl, -, rfl⟩ : _ ∧ _ ∧ _ := by simpa only [Option.some.injEq, Prod.mk.injEq] using h
  exact ⟨u64_lt _, (Nat.two_pow_pos _).ne'⟩

theorem lostBtrfs_spec {sb : Buf} {size offset : ℕ} (h : lostBtrfs sb = some (size, offset)) :
    size < 2 ^ 64 := by
  unfold lostBtrfs at h
  dsimp only at h
  split_ifs at h
  obtain ⟨rfl, -⟩ := Prod.mk.inj (Option.some.inj h)
  exact lostLe64_lt _ _

theorem lostHfs_spec {b : Buf} {type : LostType} {size : ℕ} (h : lostHfs b = some (type, size)) :
    type ≠ .partition ∧ size < 2 ^ 64 := by
  have hsize := mul_lt_pow (lostBe32_lt b 0x2c) (lostBe32_lt b 0x28).le (by decide)
  unfold lostHfs at h
  dsimp only at h
  split_ifs at h with _ _ hmax <;> obtain ⟨rfl, rfl⟩ := Prod.mk.inj (Option.some.inj h)
  · exact ⟨by simp, by omega⟩
  · exact ⟨by simp, hsize⟩
  · exact ⟨by simp, hsize⟩

theorem lostApfs_spec {b : Buf} {avail size : ℕ} (h : lostApfs b avail = some size) :
    size < 2 ^ 64 := by
  unfold lostApfs at h
  dsimp only at h
  split_ifs at h
  exact Option.some.inj h ▸ u64_lt _

theorem lostRefs_spec {b : Buf} {size : ℕ} (h : lostRefs b = some size) : size < 2 ^ 64 := by
  unfold lostRefs at h
  dsimp only at h
  split_ifs at h
  exact Option.some.inj h ▸ u64_lt _

theorem lostF2fs_spec {b : Buf} {size : ℕ} (h : lostF2fs b = some size) : size < 2 ^ 64 := by
  unfold lostF2fs at h
  dsimp only at h
  split_ifs at h
  exact Option.some.inj h ▸ u64_lt _

theorem lostUfs_spec {b : Buf} {place : ℕ} {type : LostType} {size : ℕ}
    (h : lostUfs b place = some (type, size)) : type ≠ .partition ∧ size < 2 ^ 64 := by
  unfold lostUfs at h
  dsimp only at h
  split at h
  · cases h
  · split_ifs at h <;> obtain ⟨rfl, rfl⟩ := Prod.mk.inj (Option.some.inj h) <;>
      exact ⟨by simp, u64_lt _⟩

theorem lostJfs_spec {b : Buf} {size : ℕ} (h : lostJfs b = some size) : size < 2 ^ 64 := by
  unfold lostJfs at h
  dsimp only at h
  split_ifs at h
  exact Option.some.inj h ▸ u64_lt _

theorem lostReiserfs_spec {b : Buf} {size : ℕ} (h : lostReiserfs b = some size) :
    size < 2 ^ 64 := by
  have hsize := mul_lt_pow (lostLe32_lt b 0) (lostLe16_lt b 0x2c).le (by decide)
  unfold lostReiserfs at h
  dsimp only at h
  split_ifs at h
  exact Option.some.inj h ▸ hsize

theorem lostIso_spec {b : Buf} {size : ℕ} (h : lostIso b = some size) : size < 2 ^ 64 := by
  have hsize := mul_lt_pow (lostLe32_lt b 80) (lostLe16_lt b 128).le (by decide)
  unfold lostIso at h
  dsimp only at h
  split_ifs at h
  exact Option.some.inj h ▸ hsize

theorem lostEbr_spec {b : Buf} {start count : ℕ} (h : lostEbr b = some (start, count)) :
    count < 2 ^ 32 := by
  unfold lostEbr at h
  dsimp only at h
  split_ifs at h
  obtain ⟨rfl, rfl⟩ := Prod.mk.inj (Option.some.inj h)
  exact lostLe32_lt _ _

theorem lostUdfDescs_lt (aux : Buf) (bs location endB i n : ℕ) (hend : endB < 2 ^ 33) :
    lostUdfDescs aux bs location endB i n < 2 ^ 33 := by
  induction n generalizing endB i with
  | zero => exact hend
  | succ n ih =>
    unfold lostUdfDescs
    dsimp only
    have h₀ := lostLe32_lt (aux.from (i * bs)) 188
    have h₁ := lostLe32_lt (aux.from (i * bs)) 192
    split_ifs
    · exact hend
    · exact ih _ _ (by omega)
    · exact ih _ _ hend

theorem lostUdf_spec {s size : ℕ} (h : lostUdf env s = some size) : size < 2 ^ 64 := by
  unfold lostUdf at h
  obtain ⟨bs, hbs, h⟩ := List.exists_of_findSome?_eq_some h
  have hle : bs ≤ 2 ^ 12 := by simpa using (List.mem_filter.mp hbs).2
  unfold lostUdfBlock at h
  dsimp only at h
  split_ifs at h
  split at h
  · cases h
  · split_ifs at h
    split at h
    · cases h
    · exact Option.some.inj h ▸ mul_lt_pow (lostUdfDescs_lt _ _ _ _ _ _ (by decide)) hle (by decide)

/-- The group descriptor table of an ext superblock is not empty. -/
theorem lostExtTable_ne_zero {sb : Buf} {type : LostType} {size offset table : ℕ}
    (hext : lostExt sb = some (type, size, offset)) (h : lostExtTable sb = some table) :
    table ≠ 0 := by
  obtain ⟨-, -, hlog, hblocks, hgroup⟩ := lostExt_spec hext
  have hbs : 1024 * 2 ^ lostLe32 sb 0x18 = 2 ^ (10 + lostLe32 sb 0x18) := by
    rw [Nat.pow_add]
  unfold lostExtTable at h
  dsimp only at h
  rw [hbs] at h
  generalize (if lostLe32 sb 0x60 &&& 0x80 ≠ 0 then lostLe16 sb 0xfe else 32) = desc at h
  generalize lostLe32 sb 0x18 = log at *
  generalize lostLe32 sb 0x20 = perGroup at *
  generalize lostExtBlocks sb = blocks at *
  generalize lostLe32 sb 0x14 = first at *
  split_ifs at h with hmeta hdesc
  obtain rfl := Option.some.inj h
  simp only [not_or, not_lt, not_le] at hdesc
  obtain ⟨hmin, hmax, -, hfirst⟩ := hdesc
  -- the number of groups, and that the table fits in 64 bits
  have hcount : 0 < (blocks - first + perGroup - 1) / perGroup :=
    Nat.div_pos (by omega) (by omega)
  have hcountle : (blocks - first + perGroup - 1) / perGroup ≤ blocks - first := by
    have hgrow := Nat.le_mul_of_pos_right (blocks - first) (Nat.pos_of_ne_zero hgroup)
    exact (Nat.div_le_iff_le_mul (Nat.pos_of_ne_zero hgroup)).mpr (by omega)
  generalize (blocks - first + perGroup - 1) / perGroup = count at *
  have hfits : count * desc + 2 ^ (10 + log) ≤ 2 ^ 64 :=
    calc count * desc + 2 ^ (10 + log) ≤ count * 2 ^ (10 + log) + 2 ^ (10 + log) :=
          Nat.add_le_add_right (Nat.mul_le_mul_left _ hmax) _
      _ = (count + 1) * 2 ^ (10 + log) := (Nat.succ_mul _ _).symm
      _ ≤ 2 ^ (54 - log) * 2 ^ (10 + log) := Nat.mul_le_mul_right _ (by omega)
      _ = 2 ^ 64 := by rw [← Nat.pow_add]; congr 1; omega
  have hpos : 0 < count * desc := Nat.mul_pos hcount (by omega)
  have halign : 0 < 2 ^ (10 + log) := Nat.two_pow_pos _
  rw [u64_of_lt (by omega)]
  have hround := le_lostRoundUp halign hfits
  omega

/-! ### Hits with remaps -/

theorem lostExtRemap_ok {h : LostHit} (hh : LostHitOk env aligned h) {sb : Buf} {type : LostType}
    {size offset : ℕ} (hext : lostExt sb = some (type, size, offset)) (sbOffset : ℕ) :
    LostHitOk env aligned (lostExtRemap h sb sbOffset) := by
  have hfirst := @LostHitOk.remap _ _ _ hh LOST_SB_1K sbOffset LOST_EXT_SB_SIZE (by decide)
  unfold lostExtRemap
  dsimp only
  split
  · exact hfirst
  · next table htable => exact hfirst.remap (lostExtTable_ne_zero hext htable)

theorem lostExtCopy_ok {place : ℕ} {sb : Buf} {type : LostType} {size offset : ℕ}
    (hext : lostExt sb = some (type, size, offset)) :
    LostVerdictOk env aligned (lostExtCopy env place sb type size offset) := by
  obtain ⟨htype, hsize, -⟩ := lostExt_spec hext
  unfold lostExtCopy
  split_ifs with hplace
  · exact .some (lostExtRemap_ok (lostSetHit_ok htype hsize fun _ => hplace.2) hext offset)
  · exact .none

section Detect

variable {s : ℕ} {buf : Buf} (hs : aligned → s % env.sectorSize = 0)
include hs

theorem lostPlain_ok {type : LostType} {size : ℕ} (htype : type ≠ .partition)
    (hsize : size < 2 ^ 64) : LostVerdictOk env aligned (some (lostPlain s type size)) :=
  .some (lostSetHit_ok htype hsize hs)

theorem lostDetectExt1K_ok : LostVerdictOk env aligned (lostDetectExt1K env s buf) := by
  unfold lostDetectExt1K
  cases hext : lostExt (buf.from LOST_SB_1K) with
  | none => exact .none
  | some r =>
    obtain ⟨type, size, offset⟩ := r
    obtain ⟨htype, hsize, -⟩ := lostExt_spec hext
    dsimp only
    split_ifs
    · exact lostPlain_ok hs htype hsize
    · exact lostExtCopy_ok hext

omit hs in
theorem lostDetectExtGroup_ok : LostVerdictOk env aligned (lostDetectExtGroup env s buf) := by
  unfold lostDetectExtGroup
  cases hext : lostExt buf with
  | none => exact .none
  | some r =>
    obtain ⟨type, size, offset⟩ := r
    dsimp only
    split_ifs
    · exact lostExtCopy_ok hext
    · exact .none

omit hs in
theorem lostDetectXfs_ok : LostVerdictOk env aligned (lostDetectXfs env s buf) := by
  unfold lostDetectXfs
  cases hxfs : lostXfs buf with
  | none => exact .none
  | some r =>
    obtain ⟨size, agSize, sector⟩ := r
    obtain ⟨hsize, hsector⟩ := lostXfs_spec hxfs
    dsimp only
    generalize (if lostBe32 buf sector = 0x58414746 then lostBe32 buf (sector + 8) else 0) = group
    split_ifs with hplace
    · refine .some ?_
      have hhit := @lostSetHit_ok env aligned _ _ .xfs (group ≠ 0) (by simp) hsize fun _ => hplace.2
      exact hhit.remap hsector
    · refine .some ?_
      exact lostSetHit_ok (by simp) hsize fun _ => hplace.2
    · exact .none

theorem lostDetectBtrfs_ok : LostVerdictOk env aligned (lostDetectBtrfs env s buf) := by
  unfold lostDetectBtrfs
  cases hfirst : lostBtrfs (buf.from LOST_BTRFS_SB) with
  | some r =>
    obtain ⟨size, offset⟩ := r
    dsimp only
    split_ifs
    · exact lostPlain_ok hs (by simp) (lostBtrfs_spec hfirst)
    · exact .none
  | none =>
    cases hcopy : lostBtrfs buf with
    | none => exact .none
    | some r =>
      obtain ⟨size, offset⟩ := r
      dsimp only
      split_ifs with hplace
      · refine .some (LostHitOk.remap ?_ (by decide))
        exact lostSetHit_ok (by simp) (lostBtrfs_spec hcopy) fun _ => hplace.2
      · refine .some ?_
        exact lostSetHit_ok (by simp) (lostBtrfs_spec hcopy) fun _ => hplace.2
      · exact .none

theorem lostDetectUdf_ok : LostVerdictOk env aligned (lostDetectUdf env s buf) := by
  unfold lostDetectUdf
  split_ifs
  · exact .map fun size hsize => lostSetHit_ok (by simp) (lostUdf_spec hsize) hs
  · exact .none

theorem lostDetectAt1K_ok : LostVerdictOk env aligned (lostDetectAt1K env s buf) := by
  refine (lostDetectExt1K_ok hs).orElse (lostDetectExtGroup_ok.orElse
    (LostVerdictOk.orElse (.map fun r hr => ?_) (.map fun size hsize => ?_)))
  · obtain ⟨htype, hsize⟩ := lostHfs_spec hr
    exact lostSetHit_ok htype hsize hs
  · exact lostSetHit_ok (by simp) (lostF2fs_spec hsize) hs

theorem lostDetectAt0_ok (len : ℕ) : LostVerdictOk env aligned (lostDetectAt0 env s buf len) := by
  refine .orElse (.map fun size h => ?_) (.orElse (.map fun r h => ?_) (.orElse (.map fun r h => ?_)
    (.orElse (.map fun r h => ?_) (.orElse (.map fun size h => ?_) lostDetectXfs_ok))))
  · exact lostSetHit_ok (by simp) (lostApfs_spec h) hs
  · obtain ⟨htype, hsize⟩ := lostFat_spec env.sectorSize_le h
    exact lostSetHit_ok htype hsize hs
  · exact lostSetHit_ok (by simp) (lostExfat_spec h) hs
  · exact lostSetHit_ok (by simp) (lostNtfs_spec h).1 hs
  · exact lostSetHit_ok (by simp) (lostRefs_spec h) hs

theorem lostDetectLater_ok : LostVerdictOk env aligned (lostDetectLater env s buf) := by
  refine (lostDetectBtrfs_ok hs).orElse (.orElse (.map fun r h => ?_) (.orElse (.map fun r h => ?_)
    (.orElse (.map fun size h => ?_) (.orElse (.map fun size h => ?_)
      ((lostDetectUdf_ok hs).orElse (.map fun size h => ?_))))))
  · obtain ⟨htype, hsize⟩ := lostUfs_spec h
    exact lostSetHit_ok htype hsize hs
  · obtain ⟨htype, hsize⟩ := lostUfs_spec h
    exact lostSetHit_ok htype hsize hs
  · exact lostSetHit_ok (by simp) (lostJfs_spec h) hs
  · exact lostSetHit_ok (by simp) (lostReiserfs_spec h) hs
  · exact lostSetHit_ok (by simp) (lostIso_spec h) hs

omit hs in
theorem lostDetectGroup3_ok (logBs : ℕ) :
    LostVerdictOk env aligned (lostDetectGroup3 env s logBs) := by
  unfold lostDetectGroup3
  dsimp only
  generalize u64 (s + 3 * (1024 * 2 ^ logBs) * 8 * (1024 * 2 ^ logBs)
    + if logBs = 0 then LOST_SB_1K else 0) = place
  split_ifs
  · exact .none
  · cases lostRead env place LOST_EXT_SB_SIZE with
    | none => exact .none
    | some aux =>
      dsimp only
      cases hext : lostExt aux with
      | none => exact .none
      | some r =>
        obtain ⟨type, size, offset⟩ := r
        dsimp only
        split_ifs
        · exact lostExtCopy_ok hext
        · exact .none

theorem lostBackup_ok {type : LostType} {size target source length : ℕ} (htype : type ≠ .partition)
    (hsize : size < 2 ^ 64) (hlength : length ≠ 0) :
    LostVerdictOk env aligned (some (lostBackup s type size target source length)) :=
  .some ((lostSetHit_ok htype hsize hs).remap hlength)

theorem lostDetectFatCopy_ok : LostVerdictOk env aligned (lostDetectFatCopy env s buf) := by
  have hss := env.sectorSize_pos
  unfold lostDetectFatCopy
  dsimp only
  cases hfat : lostFat (buf.from (6 * env.sectorSize)) env.sectorSize with
  | none => exact .none
  | some r =>
    obtain ⟨type, size⟩ := r
    obtain ⟨htype, hsize⟩ := lostFat_spec env.sectorSize_le hfat
    dsimp only
    split_ifs
    · exact lostBackup_ok hs htype hsize (by omega)
    · exact .none

theorem lostDetectExfatCopy_ok (shift : ℕ) :
    LostVerdictOk env aligned (lostDetectExfatCopy env s buf shift) := by
  have hpos := Nat.two_pow_pos shift
  unfold lostDetectExfatCopy
  cases hexfat : lostExfat (buf.from (12 * 2 ^ shift)) with
  | none => exact .none
  | some r =>
    obtain ⟨got, size⟩ := r
    dsimp only
    split_ifs
    · exact lostBackup_ok hs (by simp) (lostExfat_spec hexfat) (by omega)
    · exact .none

omit hs in
theorem lostDetectGroups3_ok : LostVerdictOk env aligned (lostDetectGroups3 env s) := by
  unfold lostDetectGroups3
  split_ifs
  · exact .findSome (fun logBs => lostDetectGroup3_ok logBs) _
  · exact .none

theorem lostDetectPositional_ok :
    LostVerdictOk env aligned (lostDetectPositional env s buf) := by
  refine (lostDetectFatCopy_ok hs).orElse (.orElse (.findSome (lostDetectExfatCopy_ok hs) _)
    (.orElse (.map fun size h => ?_) (.orElse (.map fun size h => ?_) lostDetectGroups3_ok)))
  · exact lostSetHit_ok (by simp) (lostF2fs_spec h) hs
  · exact (lostSetHit_ok (by simp) (lostJfs_spec h) hs).remap (by decide)

/-- Whatever `lost_examine` finds at `s` is such a hit. -/
theorem lostDetect_ok (len : ℕ) (positional : Bool) :
    LostVerdictOk env aligned (lostDetect env s buf len positional) := by
  refine (lostDetectAt1K_ok hs).orElse ((lostDetectAt0_ok hs len).orElse
    ((lostDetectLater_ok hs).orElse ?_))
  unfold lostDetectEbr
  cases hebr : lostEbr buf with
  | some r =>
    refine ⟨fun h heq => (nomatch heq), fun first count heq => ?_⟩
    cases heq
    exact lostEbr_spec hebr
  | none =>
    dsimp only
    split_ifs
    · exact lostDetectPositional_ok hs
    · exact .none

/-- So is what `lost_examine_end` finds before `s`. -/
theorem lostExamineEnd_ok {tail : Buf} :
    ∀ h ∈ lostExamineEnd env s tail, LostHitOk env aligned h := by
  intro h hh
  unfold lostExamineEnd at hh
  dsimp only at hh
  rcases List.mem_append.mp hh with hh | hh
  · cases hntfs : lostNtfs (tail.from (lostTailLen env - env.sectorSize)) with
    | none =>
      rw [hntfs] at hh
      cases hh
    | some r =>
      obtain ⟨size, bps⟩ := r
      rw [hntfs] at hh
      dsimp only at hh
      split_ifs at hh with hplace
      · rw [List.mem_singleton.mp hh]
        obtain ⟨hsize, hbps, n, hmul⟩ := lostNtfs_spec hntfs
        refine (lostSetHit_ok (by simp) hsize fun ha => ?_).remap hbps
        have hdvd : env.sectorSize ∣ size := by
          rw [hmul, hplace.1]
          exact (Nat.dvd_mod_iff (env.sectorSize_dvd (by decide))).mpr (Nat.dvd_mul_left _ _)
        exact Nat.mod_eq_zero_of_dvd
          (Nat.dvd_sub (Nat.dvd_of_mod_eq_zero (hs ha)) hdvd)
      · cases hh
  · cases hhfs : lostHfs (tail.from (lostTailLen env - LOST_SB_1K)) with
    | none =>
      rw [hhfs] at hh
      cases hh
    | some r =>
      obtain ⟨type, size⟩ := r
      rw [hhfs] at hh
      dsimp only at hh
      split_ifs at hh with hplace
      · rw [List.mem_singleton.mp hh]
        obtain ⟨htype, hsize⟩ := lostHfs_spec hhfs
        exact (lostSetHit_ok htype hsize fun _ => hplace.2).remap (by decide)
      · cases hh

end Detect

theorem LostVerdictOk.hits {v : Option LostVerdict} (hv : LostVerdictOk env aligned v) :
    ∀ h ∈ (v.map LostVerdict.hits).getD [], LostHitOk env aligned h := by
  intro h hh
  rcases v with _ | ⟨g⟩ | ⟨first, count⟩
  · cases hh
  · obtain rfl : h = g := List.mem_singleton.mp hh
    exact hv.hit h rfl
  · cases hh

theorem lostQuickVerdict_ok {c : ℕ} (hc : aligned → c % env.sectorSize = 0) :
    LostVerdictOk env aligned (lostQuickVerdict env c) := by
  unfold lostQuickVerdict
  dsimp only
  split_ifs
  · exact .none
  · cases lostRead env c (min (env.size - c) LOST_WINDOW) with
    | none => exact .none
    | some raw => exact lostDetect_ok hc _ _

/-- The hits of a candidate. -/
theorem lostQuickHits_ok {c : ℕ} (hc : aligned → c % env.sectorSize = 0) {endOnly : Bool} :
    ∀ h ∈ lostQuickHits env c endOnly, LostHitOk env aligned h := by
  intro h hh
  unfold lostQuickHits lostQuickEnds at hh
  dsimp only at hh
  rcases List.mem_append.mp hh with hh | hh
  · split_ifs at hh
    · cases hread : lostRead env (c - lostTailLen env) (lostTailLen env) with
      | none =>
        rw [hread] at hh
        cases hh
      | some tail =>
        rw [hread] at hh
        exact lostExamineEnd_ok hc h hh
    · cases hh
  · split_ifs at hh
    · cases hh
    · exact (lostQuickVerdict_ok hc).hits h hh

theorem LostSectorHit.ok {x : ℕ} {inRange : Bool} (hx : aligned → x % env.sectorSize = 0)
    {h : LostHit} (hh : LostSectorHit env x inRange h) : LostHitOk env aligned h := by
  rcases hh with ⟨before, hh⟩ | ⟨-, buf, len, positional, hh⟩
  · exact lostExamineEnd_ok hx h hh
  · exact (lostDetect_ok hx _ _).hit h hh

/-- The entry of an extended boot record has a size that fits. -/
theorem LostEbrAt.size_lt {v : Option LostVerdict} (hv : LostVerdictOk env aligned v)
    {c start size : ℕ} (h : LostEbrAt env v c start size) : size < 2 ^ 64 := by
  obtain ⟨first, count, hebr, -, rfl⟩ := h
  exact mul_lt_pow (hv.ebr first count hebr) env.sectorSize_le (by decide)

theorem LostEbrEntry.size_lt {start size : ℕ} (h : LostEbrEntry env start size) :
    size < 2 ^ 64 := by
  obtain ⟨c, buf, len, positional, h⟩ := h
  exact h.size_lt (@lostDetect_ok _ False _ _ (fun h => absurd h not_false) len positional)

/-! ### The hits a deep search keeps -/

theorem mem_lostPend {pending : List LostHit} {hit h : LostHit} (hh : h ∈ lostPend pending hit) :
    h ∈ pending ∨ h = hit := by
  unfold lostPend at hh
  split_ifs at hh
  · exact Or.inl hh
  · split at hh
    · split_ifs at hh
      · exact List.mem_or_eq_of_mem_set hh
      · exact Or.inl hh
    · rcases List.mem_append.mp hh with hh | hh
      · exact Or.inl hh
      · exact Or.inr (List.mem_singleton.mp hh)

theorem mem_foldl_lostPend {pending hs : List LostHit} {h : LostHit}
    (hh : h ∈ hs.foldl lostPend pending) : h ∈ pending ∨ h ∈ hs := by
  induction hs generalizing pending with
  | nil => exact Or.inl hh
  | cons a hs ih =>
    rcases ih hh with hh | hh
    · rcases mem_lostPend hh with hh | rfl
      · exact Or.inl hh
      · exact Or.inr List.mem_cons_self
    · exact Or.inr (List.mem_cons_of_mem _ hh)

theorem mem_lostInsertHit {h g : LostHit} {sorted : List LostHit}
    (hg : g ∈ lostInsertHit h sorted) : g = h ∨ g ∈ sorted := by
  induction sorted with
  | nil => exact Or.inl (List.mem_singleton.mp hg)
  | cons a sorted ih =>
    unfold lostInsertHit at hg
    split_ifs at hg
    · rcases List.mem_cons.mp hg with rfl | hg
      · exact Or.inr List.mem_cons_self
      · exact (ih hg).imp_right (List.mem_cons_of_mem _)
    · exact List.mem_cons.mp hg

theorem mem_lostCompact {hs : List LostHit} {i kept n : ℕ} {h : LostHit}
    (hh : h ∈ lostCompact hs i kept n) : h ∈ hs := by
  induction n generalizing hs i kept with
  | zero => exact List.mem_of_mem_take hh
  | succ n ih =>
    unfold lostCompact at hh
    cases hb : hs[i]? with
    | none =>
      rw [hb] at hh
      exact List.mem_of_mem_take hh
    | some b =>
      rw [hb] at hh
      dsimp only at hh
      split_ifs at hh
      · exact ih hh
      · rcases List.mem_or_eq_of_mem_set (ih hh) with hh | rfl
        · exact hh
        · exact SortedSearch.mem_of_getElem? hb

theorem mem_lostSettle {pending : List LostHit} {h : LostHit} (hh : h ∈ lostSettle pending) :
    h ∈ pending := by
  have hsorted : ∀ (pending sorted : List LostHit),
      h ∈ pending.foldl (fun sorted h => lostInsertHit h sorted) sorted →
      h ∈ pending ∨ h ∈ sorted := by
    intro pending
    induction pending with
    | nil => exact fun sorted hh => Or.inr hh
    | cons a pending ih =>
      intro sorted hh
      rcases ih _ hh with hh | hh
      · exact Or.inl (List.mem_cons_of_mem _ hh)
      · rcases mem_lostInsertHit hh with rfl | hh
        · exact Or.inl List.mem_cons_self
        · exact Or.inr hh
  have hmem := mem_lostCompact hh
  rw [List.mem_reverse] at hmem
  exact (hsorted pending [] hmem).resolve_right List.not_mem_nil

end FsRover
