import Mathlib.Data.Finset.Card
import Mathlib.Data.Finset.Range
import Mathlib.Data.Finset.Union
import Mathlib.Data.Prod.Lex
import FsRover.Lost.Candidates

/-!
# Every round makes progress

A round lowers a measure: results and table entries that candidates can still add, queued ranges,
the bytes ahead. Only one round does not, that at the device end, and it finds nothing new.

## Main definitions

* `FsRover.LostSearch.Roomy` : no offset of the search wraps.
* `FsRover.LostSpan` : where the position and the ranges stepped over can be.
* `FsRover.lostRank` : the measure.
* `FsRover.LostAtEnd`, `FsRover.lostEndPos` : the round at the device end and where it leaves off.

## Main results

* `FsRover.LostRound.progress` : a round lowers the measure, or is the one at the device end.
* `FsRover.LostAtEnd.round` : what that one does.
-/

namespace FsRover

variable {env : LostSearch}

/-! ### Room at the end of the 64-bit range -/

variable (env) in
/-- No offset that the search computes its next position from wraps. -/
def LostSearch.Roomy : Prop :=
  if env.deep then env.size + LOST_DEEP_CHUNK < 2 ^ 64
  else (∀ x ≤ env.size + 1, env.Reaches x)
    ∧ ∀ r ∈ env.ranges, r.readable = true → r.start ≤ env.size → env.Reaches r.endAt

theorem le_lostNextHead {x head : ℕ} (hhead : head < 3) (hx : x + 2 * LOST_CYLINDER ≤ 2 ^ 64) :
    x ≤ lostNextHead x head := by
  have hshort : head * LOST_TRACK < LOST_CYLINDER := by
    unfold LOST_CYLINDER LOST_TRACK
    omega
  have hpos : 0 < LOST_CYLINDER := by decide
  unfold lostNextHead
  generalize LOST_CYLINDER = cyl at *
  generalize head * LOST_TRACK = first at *
  have hmod := Nat.mod_lt x hpos
  have hdiv := Nat.div_add_mod x cyl
  rw [Nat.mul_comm] at hdiv
  have hbase : x / cyl * cyl + first < 2 ^ 64 := by omega
  rw [u64_of_lt hbase]
  dsimp only
  split_ifs with hbefore
  · rw [u64_of_lt (by omega)]
    omega
  · omega

/-- Two cylinders below the end of the range nothing wraps. -/
theorem reaches_of_le {x : ℕ} (hx : x + 2 * LOST_CYLINDER ≤ 2 ^ 64) : env.Reaches x := by
  have hmib : x ≤ lostRoundUp x LOST_MIB :=
    le_lostRoundUp (by decide) (le_trans (Nat.add_le_add_left (by decide) x) hx)
  unfold LostSearch.Reaches lostNextGrid
  dsimp only
  split_ifs
  · exact le_min (le_min (le_min hmib (le_lostNextHead (by decide) hx))
      (le_lostNextHead (by decide) hx)) (le_lostNextHead (by decide) hx)
  · exact hmib

/-! ### Where the position can be -/

/-- A readable partition that a search can meet ends at `x`. -/
def LostRangeEnd (env : LostSearch) (x : ℕ) : Prop :=
  ∃ r ∈ env.ranges, r.readable = true ∧ r.start ≤ env.size ∧ r.endAt = x

/-- The position is at most one byte behind the device, where the search began or at the end of a
readable partition, and the ranges stepped over lie on the device. -/
structure LostSpan (env : LostSearch) (s : LostScan) : Prop where
  pos : s.pos ≤ max (env.size + 1) env.origin ∨ LostRangeEnd env s.pos
  skips : ∀ k ∈ s.skips, k.fromOff < k.toOff ∧ k.toOff ≤ env.size

theorem LostSpan.conflict {skips : List LostSkip} {n : ℕ}
    (h : ∀ k ∈ skips, k.fromOff < k.toOff ∧ k.toOff ≤ n) (start : ℕ) :
    ∀ k ∈ skips.map (·.conflict start), k.fromOff < k.toOff ∧ k.toOff ≤ n := by
  intro k hk
  obtain ⟨k₀, hk₀, rfl⟩ := List.mem_map.mp hk
  have h₀ := h k₀ hk₀
  unfold LostSkip.conflict
  split_ifs
  · exact h₀
  · exact h₀

theorem LostAct.span {hits : LostHit → Prop} {entries : ℕ → ℕ → Prop} {s s' : LostScan}
    (h : LostAct env hits entries s s') (hs : LostSpan env s) : LostSpan env s' := by
  cases h with
  | hint => exact ⟨hs.pos, hs.skips⟩
  | table start => exact ⟨hs.pos, LostSpan.conflict hs.skips start⟩
  | jump endAt hpos hle =>
    refine ⟨Or.inl (le_max_of_le_left (by dsimp only; omega)), fun k hk => ?_⟩
    rcases List.mem_append.mp hk with hk | hk
    · exact hs.skips k hk
    · rw [List.mem_singleton.mp hk]
      exact ⟨hpos, hle⟩
  | record hit => exact ⟨hs.pos, LostSpan.conflict hs.skips _⟩

theorem LostActs.span {hits : LostHit → Prop} {entries : ℕ → ℕ → Prop} {s s' : LostScan}
    (h : LostActs env hits entries s s') (hs : LostSpan env s) : LostSpan env s' :=
  Runs.preserves (P := LostSpan env) (fun _ _ => LostAct.span) h hs

theorem LostChunkActs.span {hits : LostHit → Prop} {entries : ℕ → ℕ → Prop} {s s' : LostScan}
    (h : LostChunkActs env hits entries s s') (hs : LostSpan env s) : LostSpan env s' := by
  refine Runs.preserves (P := LostSpan env) (fun a b hab ha => ?_) h hs
  cases hab with
  | act h => exact h.span ha
  | sector => exact ⟨ha.pos, ha.skips⟩
  | tail => exact ⟨ha.pos, ha.skips⟩
  | pend => exact ⟨ha.pos, ha.skips⟩

theorem LostRound.span {s s' : LostScan} (h : LostRound env s s') (hs : LostSpan env s) :
    LostSpan env s' := by
  cases h with
  | finish => exact ⟨hs.pos, hs.skips⟩
  | pass i k _ _ _ _ hget =>
    have hk := hs.skips k (SortedSearch.mem_of_getElem? hget)
    refine ⟨Or.inl (le_max_of_le_left (by dsimp only; omega)), fun k' hk' => ?_⟩
    rcases List.mem_or_eq_of_mem_set hk' with hk' | rfl
    · exact hs.skips k' hk'
    · exact hk
  | misaligned c _ _ _ _ hle =>
    exact ⟨Or.inl (le_max_of_le_left (by dsimp only; omega)), hs.skips⟩
  | skipRange c r _ _ _ _ hle _ _ hr =>
    obtain ⟨hmem, hread, hstart, -⟩ := lostRangeAt_spec hr
    exact ⟨Or.inr ⟨r, hmem, hread, hstart.trans hle, rfl⟩, hs.skips⟩
  | visit c _ _ _ _ _ _ hle _ _ _ _ hacts =>
    exact LostActs.span hacts ⟨Or.inl (le_max_of_le_left (by dsimp only; omega)), hs.skips⟩
  | settle => exact ⟨Or.inl (le_max_of_le_left (Nat.le_succ _)), hs.skips⟩
  | chunk _ _ _ hpos =>
    obtain ⟨m, hacts, hm⟩ := @lostDeepChunk_acts env s
    have hspan := LostChunkActs.span hacts hs
    rw [hm]
    refine ⟨?_, hspan.skips⟩
    unfold lostDeepNext
    dsimp only
    cases hr : lostRangeAt env s.pos true with
    | none => exact Or.inl (le_max_of_le_left (lostDeepEnd_le _ _))
    | some r =>
      obtain ⟨hmem, hread, hstart, -⟩ := lostRangeAt_spec hr
      exact Or.inr ⟨r, hmem, hread, hstart.trans hpos, rfl⟩
  | pending _ _ _ _ _ hacts => exact LostActs.span hacts ⟨hs.pos, hs.skips⟩
  | claimed => exact ⟨hs.pos, hs.skips⟩
  | entry _ _ _ _ _ _ _ hacts => exact LostActs.span hacts ⟨hs.pos, hs.skips⟩
  | ends => exact ⟨hs.pos, hs.skips⟩

theorem LostStep.span {s s' : LostScan} (h : LostStep env s s') (hs : LostSpan env s) :
    LostSpan env s' := by
  cases h with
  | round h => exact h.span hs
  | clamp => exact ⟨Or.inl (le_max_of_le_left (Nat.le_succ _)), hs.skips⟩

/-! ### The measure -/

/-- A result as `lost_report` remembers it. -/
def LostHit.found (hit : LostHit) : LostFound := ⟨hit.start, hit.size, hit.type⟩

variable (env) in
/-- The results that candidates can give. -/
def lostFinds : Finset LostFound :=
  (Finset.range (env.size + 1)).biUnion fun c =>
    ((lostQuickHits env c true ++ lostQuickHits env c false).map LostHit.found).toFinset

variable (env) in
/-- The entry of an extended boot record at a candidate. -/
def lostEbrEntryAt (c : ℕ) : Finset (ℕ × ℕ) :=
  match lostQuickVerdict env c with
  | some (.ebr first count) => {(u64 (c + first * env.sectorSize), count * env.sectorSize)}
  | _ => ∅

variable (env) in
/-- The entries that extended boot records at candidates can give. -/
def lostEbrEntries : Finset (ℕ × ℕ) :=
  (Finset.range (env.size + 1)).biUnion (lostEbrEntryAt env)

/-- The entries a scan remembers, without their marks. -/
def lostTableKeys (tables : List LostTable) : List (ℕ × ℕ) := tables.map fun t => (t.start, t.size)

variable (env) in
/-- How many results and entries candidates can still add. -/
def lostLeft (s : LostScan) : ℕ :=
  (lostFinds env \ s.found.toFinset).card
    + (lostEbrEntries env \ (lostTableKeys s.tables).toFinset).card

/-- How many ranges wait to be searched again. -/
def lostQueued (s : LostScan) : ℕ := s.skips.countP (·.state = .queued)

variable (env) in
/-- The measure of a search. -/
def lostRank (s : LostScan) : ℕ ×ₗ ℕ ×ₗ ℕ ×ₗ ℕ :=
  if s.done then toLex (0, toLex (0, toLex (0, 0)))
  else if s.finishing then
    toLex (1, toLex (0, toLex (0,
      (s.pending.length - s.nextPending) + (s.tables.length - s.nextTable))))
  else if env.deep then toLex (2, toLex (0, toLex (0, env.size - s.pos)))
  else toLex (2, toLex (lostLeft env s, toLex (lostQueued s, env.size - s.pos)))

variable (env) in
/-- From `s` to `s'` something new was found, or nothing was and no range was queued. -/
def LostFewer (s s' : LostScan) : Prop :=
  lostLeft env s' < lostLeft env s
    ∨ lostLeft env s' = lostLeft env s ∧ lostQueued s' = lostQueued s ∧ s'.found = s.found

theorem LostFewer.trans {a b c : LostScan} (hab : LostFewer env a b) (hbc : LostFewer env b c) :
    LostFewer env a c := by
  rcases hab with hab | ⟨hab, hqab, hfab⟩ <;> rcases hbc with hbc | ⟨hbc, hqbc, hfbc⟩
  · exact Or.inl (hbc.trans hab)
  · exact Or.inl (hbc.trans_lt hab)
  · exact Or.inl (hab ▸ hbc)
  · exact Or.inr ⟨hbc.trans hab, hqbc.trans hqab, hfbc.trans hfab⟩

theorem card_sdiff_lt {α : Type*} [DecidableEq α] {U : Finset α} {l : List α} {a : α}
    (ha : a ∈ U) (hnew : a ∉ l) : (U \ (l ++ [a]).toFinset).card < (U \ l.toFinset).card := by
  refine Finset.card_lt_card ((Finset.ssubset_iff_of_subset fun x hx => ?_).mpr ⟨a, ?_, ?_⟩)
  · simp only [Finset.mem_sdiff, List.mem_toFinset, List.mem_append, not_or] at hx ⊢
    exact ⟨hx.1, hx.2.1⟩
  · simpa using ⟨ha, hnew⟩
  · simp

theorem lostTableKeys_claim (tables : List LostTable) (start : ℕ) :
    lostTableKeys (lostClaim tables start) = lostTableKeys tables := by
  unfold lostTableKeys lostClaim
  rw [List.map_map]
  refine List.map_congr_left fun t _ => ?_
  dsimp only [Function.comp]
  split_ifs <;> rfl

theorem LostAct.fewer {hits : LostHit → Prop} {entries : ℕ → ℕ → Prop} {s s' : LostScan}
    (hhits : ∀ h, hits h → h.found ∈ lostFinds env)
    (hentries : ∀ a b, entries a b → (a, b) ∈ lostEbrEntries env)
    (h : LostAct env hits entries s s') : LostFewer env s s' := by
  cases h with
  | hint => exact Or.inr ⟨rfl, rfl, rfl⟩
  | table start size hentry _ _ _ hnew =>
    refine Or.inl (Nat.add_lt_add_left ?_ _)
    have hkey : (start, size) ∉ lostTableKeys s.tables := by
      intro hmem
      obtain ⟨t, ht, hkey⟩ := List.mem_map.mp hmem
      obtain ⟨hstart, hsize⟩ := Prod.mk.inj hkey
      exact hnew t ht hstart hsize
    have hlt := card_sdiff_lt (hentries _ _ hentry) hkey
    simpa only [lostTableKeys, List.map_append, List.map_cons, List.map_nil] using hlt
  | jump endAt =>
    refine Or.inr ⟨rfl, ?_, rfl⟩
    simp [lostQueued, List.countP_append]
  | record hit hhit _ hnew =>
    refine Or.inl ?_
    have hfound : hit.found ∉ s.found := by
      intro hmem
      have hknown : lostKnown s (lostEffectiveHit env hit) = true := by
        rw [lostKnown_iff, lostEffectiveHit_start, lostEffectiveHit_size, lostEffectiveHit_type]
        exact hmem
      rw [hknown] at hnew
      cases hnew
    have hlt := card_sdiff_lt (hhits _ hhit) hfound
    unfold lostLeft lostAccept lostRemember
    dsimp only
    rw [lostTableKeys_claim]
    simp only [lostEffectiveHit_start, lostEffectiveHit_size, lostEffectiveHit_type]
    exact Nat.add_lt_add_right hlt _

theorem LostActs.fewer {hits : LostHit → Prop} {entries : ℕ → ℕ → Prop} {s s' : LostScan}
    (hhits : ∀ h, hits h → h.found ∈ lostFinds env)
    (hentries : ∀ a b, entries a b → (a, b) ∈ lostEbrEntries env)
    (h : LostActs env hits entries s s') : LostFewer env s s' :=
  Runs.relates (R := LostFewer env) (fun _ => Or.inr ⟨rfl, rfl, rfl⟩) (fun _ _ _ => LostFewer.trans)
    (fun _ _ => LostAct.fewer hhits hentries) h

/-- What a candidate on the device gives is among the finite sets. -/
theorem mem_lostFinds {c : ℕ} {endOnly : Bool} (hle : c ≤ env.size) {h : LostHit}
    (hh : h ∈ lostQuickHits env c endOnly) : h.found ∈ lostFinds env := by
  refine Finset.mem_biUnion.mpr ⟨c, Finset.mem_range.mpr (by omega), ?_⟩
  refine List.mem_toFinset.mpr (List.mem_map_of_mem ?_)
  cases endOnly with
  | true => exact List.mem_append_left _ hh
  | false => exact List.mem_append_right _ hh

theorem mem_lostEbrEntries {c start size : ℕ} (hle : c ≤ env.size)
    (h : LostEbrAt env (lostQuickVerdict env c) c start size) :
    (start, size) ∈ lostEbrEntries env := by
  obtain ⟨first, count, hv, rfl, rfl⟩ := h
  refine Finset.mem_biUnion.mpr ⟨c, Finset.mem_range.mpr (by omega), ?_⟩
  unfold lostEbrEntryAt
  rw [hv]
  exact Finset.mem_singleton_self _

theorem LostActs.tables_length {hits : LostHit → Prop} {s s' : LostScan}
    (h : LostActs env hits (fun _ _ => False) s s') : s'.tables.length = s.tables.length := by
  refine Runs.preserves (P := fun a => a.tables.length = s.tables.length) (fun a b hab ha => ?_) h
    rfl
  rw [← ha]
  cases hab with
  | hint => rfl
  | table _ _ hentry => exact absurd hentry not_false
  | jump => rfl
  | record hit => simp [lostAccept, lostRemember, lostClaim]

/-! ### A round -/

variable (env) in
/-- The search stands at the device end and has to look there. -/
structure LostAtEnd (s : LostScan) : Prop where
  done : s.done = false
  finishing : s.finishing = false
  pos : s.pos = env.size
  quick : env.deep = false → env.size < s.limit ∧ env.size % env.sectorSize = 0

variable (env) in
/-- Where the round at the device end leaves off: behind the readable partition there, or one byte
behind the device. -/
def lostEndPos : ℕ :=
  match lostRangeAt env env.size true with
  | some r => if env.deep = true ∨ r.start ≠ env.size then r.endAt else env.size + 1
  | none => env.size + 1

theorem size_lt_lostEndPos : env.size < lostEndPos env := by
  unfold lostEndPos
  cases hr : lostRangeAt env env.size true with
  | none => exact Nat.lt_succ_self _
  | some r =>
    obtain ⟨-, -, -, hlt⟩ := lostRangeAt_spec hr
    dsimp only
    split_ifs
    · exact hlt
    · exact Nat.lt_succ_self _

/-- Rounds of the quick search at `x` do not wrap. -/
theorem LostSpan.reaches {s : LostScan} (hs : LostSpan env s) (hroom : env.Roomy)
    (hquick : env.deep = false) : env.Reaches s.pos := by
  unfold LostSearch.Roomy at hroom
  rw [if_neg (by simp [hquick])] at hroom
  rcases hs.pos with hpos | ⟨r, hmem, hread, hstart, hend⟩
  · rcases le_max_iff.mp hpos with hpos | hpos
    · exact hroom.1 _ hpos
    · exact reaches_of_le (le_trans (Nat.add_le_add_right (hpos.trans env.origin_le) _) (by decide))
  · exact hend ▸ hroom.2 r hmem hread hstart

theorem LostSpan.pos_le {s : LostScan} (hs : LostSpan env s) (hroom : env.Roomy)
    (hquick : env.deep = false) (hh : LostHints env s.hints) {c : ℕ}
    (hc : c = lostNext env s.hints s.pos) (hle : c ≤ env.size) : s.pos ≤ c := by
  have hreach := hs.reaches hroom hquick
  have hpos : s.pos ≤ env.size := by
    by_contra hlt
    have hnext := lostNext_of_size_lt hh hreach (not_le.mp hlt)
    omega
  rw [hc]
  exact le_lostNext hh hreach (by omega)

theorem lt_foldl_lostDeepEnd {base : ℕ} (rs : List LostRange) {e : ℕ} (he : base < e) :
    base < rs.foldl
      (fun e r => if r.readable ∧ base < r.start ∧ r.start < e then r.start else e) e := by
  induction rs generalizing e with
  | nil => exact he
  | cons r rs ih =>
    rw [List.foldl_cons]
    split_ifs with hr
    · exact ih hr.2.1
    · exact ih he

theorem lt_lostDeepEnd {base : ℕ} {inRange : Bool} (hroom : env.size + LOST_DEEP_CHUNK < 2 ^ 64)
    (hle : base ≤ env.size) : base < lostDeepEnd env base inRange := by
  have hchunk : 0 < LOST_DEEP_CHUNK := by decide
  have hbegin : base < if inRange = true then base + 1 else u64 (base + LOST_DEEP_CHUNK) := by
    split_ifs
    · exact Nat.lt_succ_self _
    · rw [u64_of_lt (lt_of_le_of_lt (Nat.add_le_add_right hle _) hroom)]
      exact Nat.lt_add_of_pos_right hchunk
  have hfold := lt_foldl_lostDeepEnd env.ranges hbegin
  unfold lostDeepEnd
  dsimp only
  split_ifs at hfold ⊢ <;> omega

theorem lt_lostDeepNext {base : ℕ} (hroom : env.Roomy) (hdeep : env.deep = true)
    (hle : base ≤ env.size) : base < lostDeepNext env base := by
  unfold LostSearch.Roomy at hroom
  rw [if_pos hdeep] at hroom
  unfold lostDeepNext
  cases hr : lostRangeAt env base true with
  | none => exact lt_lostDeepEnd hroom hle
  | some r => exact (lostRangeAt_spec hr).2.2.2

theorem LostActs.pos_eq {hits : LostHit → Prop} {entries : ℕ → ℕ → Prop} {s s' : LostScan}
    (hlt : env.size < s.pos) (h : LostActs env hits entries s s') : s'.pos = s.pos := by
  refine Runs.preserves (P := fun a => a.pos = s.pos) (fun a b hab ha => ?_) h rfl
  cases hab with
  | hint => exact ha
  | table => exact ha
  | jump endAt hpos hle => omega
  | record => exact ha

/-- What the round at the device end does. -/
theorem LostAtEnd.round {s s' : LostScan} (hs : LostAtEnd env s) (hroom : env.Roomy)
    (hh : LostHints env s.hints) (hend : env.size % env.sectorSize = 0 → env.size ∈ s.hints)
    (h : LostRound env s s') :
    s'.pos = lostEndPos env ∧ s'.done = false ∧ s'.finishing = false ∧ s'.limit = s.limit := by
  have hnext : env.deep = false → lostNext env s.hints s.pos = env.size := by
    intro hquick
    obtain ⟨-, hmod⟩ := hs.quick hquick
    have hle := lostNext_le_hint hh (hend hmod) (x := s.pos) hs.pos.le
    have hroom' := hroom
    unfold LostSearch.Roomy at hroom'
    rw [if_neg (by simp [hquick])] at hroom'
    have hge := le_lostNext hh (hroom'.1 s.pos (by rw [hs.pos]; omega)) (by rw [hs.pos]; omega)
    rw [hs.pos] at hge hle ⊢
    exact le_antisymm hle hge
  cases h with
  | finish _ _ hquick hover =>
    rw [hnext hquick] at hover
    obtain ⟨hlt, -⟩ := hs.quick hquick
    omega
  | pass i k _ _ hquick hover =>
    rw [hnext hquick] at hover
    obtain ⟨hlt, -⟩ := hs.quick hquick
    omega
  | misaligned c _ _ hquick hc hle hlt hmod =>
    rw [hnext hquick] at hc
    exact absurd (hs.quick hquick).2 (hc ▸ hmod)
  | skipRange c r _ _ hquick hc hle hlt hmod hr hne =>
    rw [hnext hquick] at hc
    subst hc
    refine ⟨?_, hs.done, hs.finishing, rfl⟩
    unfold lostEndPos
    rw [hr]
    exact (if_pos (Or.inr hne)).symm
  | visit c _ _ _ _ hquick hc _ _ _ hrange _ hacts =>
    rw [hnext hquick] at hc
    have hframe := LostActs.frame hacts
    have hpos := LostActs.pos_eq (by dsimp only; omega) hacts
    refine ⟨?_, hframe.done_eq.trans hs.done, hframe.finishing_eq.trans hs.finishing,
      hframe.limit_eq⟩
    unfold lostEndPos
    rw [hc] at hpos hrange
    cases hr : lostRangeAt env env.size true with
    | none => exact hpos
    | some r =>
      dsimp only
      rw [if_neg (by simp [hquick, hrange r hr])]
      exact hpos
  | settle _ _ _ hpos => exact absurd hs.pos (by omega)
  | chunk _ _ hdeep =>
    have hframe := @lostDeepChunk_frame env s
    refine ⟨?_, hframe.done_eq.trans hs.done, hframe.finishing_eq.trans hs.finishing,
      hframe.limit_eq⟩
    rw [lostDeepChunk_pos]
    unfold LostSearch.Roomy at hroom
    rw [if_pos hdeep] at hroom
    unfold lostEndPos lostDeepNext
    rw [hs.pos]
    cases hr : lostRangeAt env env.size true with
    | none => exact le_antisymm (lostDeepEnd_le _ _) (lt_lostDeepEnd hroom le_rfl)
    | some r => exact (if_pos (Or.inl hdeep)).symm
  | pending _ _ _ hrun => rw [hs.finishing] at hrun; cases hrun
  | claimed _ _ hrun => rw [hs.finishing] at hrun; cases hrun
  | entry _ _ _ hrun => rw [hs.finishing] at hrun; cases hrun
  | ends _ hrun => rw [hs.finishing] at hrun; cases hrun

/-! ### Every round makes progress -/

theorem lostRank_done {s : LostScan} (hdone : s.done = true) :
    lostRank env s = toLex (0, toLex (0, toLex (0, 0))) := if_pos hdone

theorem lostRank_finishing {s : LostScan} (hdone : s.done = false) (hrun : s.finishing = true) :
    lostRank env s = toLex (1, toLex (0, toLex (0,
      (s.pending.length - s.nextPending) + (s.tables.length - s.nextTable)))) := by
  unfold lostRank
  rw [if_neg (by simp [hdone]), if_pos hrun]

theorem lostRank_deep {s : LostScan} (hdone : s.done = false) (hrun : s.finishing = false)
    (hdeep : env.deep = true) :
    lostRank env s = toLex (2, toLex (0, toLex (0, env.size - s.pos))) := by
  unfold lostRank
  rw [if_neg (by simp [hdone]), if_neg (by simp [hrun]), if_pos hdeep]

theorem lostRank_quick {s : LostScan} (hdone : s.done = false) (hrun : s.finishing = false)
    (hquick : env.deep = false) :
    lostRank env s = toLex (2, toLex (lostLeft env s, toLex (lostQueued s, env.size - s.pos))) := by
  unfold lostRank
  rw [if_neg (by simp [hdone]), if_neg (by simp [hrun]), if_neg (by simp [hquick])]

/-- Comparison of two measures, by the first place where they differ. -/
theorem toLex_lt_iff {a b c d a' b' c' d' : ℕ} :
    toLex (a, toLex (b, toLex (c, d))) < toLex (a', toLex (b', toLex (c', d'))) ↔
      a < a' ∨ a = a' ∧ (b < b' ∨ b = b' ∧ (c < c' ∨ c = c' ∧ d < d')) := by
  simp only [Prod.Lex.toLex_lt_toLex]

theorem LostFinish.progress {s m s' : LostScan} {hits : LostHit → Prop} (hdone : s.done = false)
    (hrun : s.finishing = true) (hacts : LostActs env hits (fun _ _ => False) m s')
    (hm : m.done = false ∧ m.finishing = true ∧ m.pending = s.pending ∧ m.tables = s.tables)
    (hlt : (s.pending.length - m.nextPending) + (s.tables.length - m.nextTable)
      < (s.pending.length - s.nextPending) + (s.tables.length - s.nextTable)) :
    lostRank env s' < lostRank env s := by
  obtain ⟨hmdone, hmrun, hmpending, hmtables⟩ := hm
  have hframe := LostActs.frame hacts
  have hlen := LostActs.tables_length hacts
  rw [lostRank_finishing hdone hrun, lostRank_finishing (hframe.done_eq.trans hmdone)
    (hframe.finishing_eq.trans hmrun), toLex_lt_iff, hlen, hframe.pending_eq, hmpending, hmtables,
    hframe.nextPending_eq, hframe.nextTable_eq]
  exact Or.inr ⟨rfl, Or.inr ⟨rfl, Or.inr ⟨rfl, hlt⟩⟩⟩

/-- A round of the quick search that moves the position forward. -/
theorem LostMove.progress {s s' : LostScan} (hdone : s.done = false) (hrun : s.finishing = false)
    (hquick : env.deep = false) {c : ℕ} (hpos : s.pos ≤ c) (hle : c ≤ env.size) (hlt : c < s.limit)
    (hmod : c % env.sectorSize = 0) (hdone' : s'.done = false) (hrun' : s'.finishing = false)
    (hpos' : c < s'.pos) (hfewer : LostFewer env s s') :
    lostRank env s' < lostRank env s
      ∨ LostAtEnd env s ∧ lostRank env s' = lostRank env s ∧ s'.found = s.found := by
  rw [lostRank_quick hdone hrun hquick, lostRank_quick hdone' hrun' hquick]
  rcases hfewer with hfewer | ⟨hleft, hqueued, hfound⟩
  · exact Or.inl (toLex_lt_iff.mpr (Or.inr ⟨rfl, Or.inl hfewer⟩))
  · rcases Nat.lt_or_ge s.pos env.size with hbefore | hend
    · exact Or.inl (toLex_lt_iff.mpr
        (Or.inr ⟨rfl, Or.inr ⟨hleft, Or.inr ⟨hqueued, by omega⟩⟩⟩))
    · have hc : c = env.size := by omega
      subst hc
      refine Or.inr ⟨⟨hdone, hrun, by omega, fun _ => ⟨hlt, hmod⟩⟩, ?_, hfound⟩
      rw [hleft, hqueued, Nat.sub_eq_zero_of_le hend, Nat.sub_eq_zero_of_le hpos'.le]

/-- Every round lowers the measure, or is the one at the device end and finds nothing new. -/
theorem LostRound.progress {s s' : LostScan} (hroom : env.Roomy) (hh : LostHints env s.hints)
    (hs : LostSpan env s) (h : LostRound env s s') :
    lostRank env s' < lostRank env s
      ∨ LostAtEnd env s ∧ lostRank env s' = lostRank env s ∧ s'.found = s.found := by
  cases h with
  | finish hdone hrun hquick =>
    refine Or.inl ?_
    rw [lostRank_quick hdone hrun hquick,
      lostRank_finishing (s := { s with finishing := true }) hdone rfl]
    exact toLex_lt_iff.mpr (Or.inl (by decide))
  | pass i k hdone hrun hquick _ hget hqueued =>
    refine Or.inl ?_
    rw [lostRank_quick hdone hrun hquick, lostRank_quick (s := { s with
      skips := s.skips.set i { k with state := .done }, pos := k.fromOff, limit := k.toOff,
      rescanning := true }) hdone hrun hquick]
    refine toLex_lt_iff.mpr (Or.inr ⟨rfl, Or.inr ⟨rfl, Or.inl ?_⟩⟩)
    obtain ⟨hi, rfl⟩ := List.getElem?_eq_some_iff.mp hget
    have hpos : 0 < lostQueued s :=
      List.countP_pos_iff.mpr ⟨_, List.getElem_mem hi, by simpa using hqueued⟩
    unfold lostQueued at hpos ⊢
    dsimp only
    rw [List.countP_set hi, if_pos (by simpa using hqueued), if_neg (by simp)]
    omega
  | misaligned c hdone hrun hquick hc hle hlt hmod =>
    exact absurd (hc ▸ lostNext_mod hh (hc ▸ hle)) hmod
  | skipRange c r hdone hrun hquick hc hle hlt hmod hr =>
    exact LostMove.progress hdone hrun hquick (hs.pos_le hroom hquick hh hc hle) hle hlt hmod hdone
      hrun (lostRangeAt_spec hr).2.2.2 (Or.inr ⟨rfl, rfl, rfl⟩)
  | visit c _ _ hdone hrun hquick hc hle hlt hmod _ _ hacts =>
    have hframe := LostActs.frame hacts
    have hfewer := LostActs.fewer (fun _ => mem_lostFinds hle) (fun _ _ => mem_lostEbrEntries hle)
      hacts
    exact LostMove.progress hdone hrun hquick (hs.pos_le hroom hquick hh hc hle) hle hlt hmod
      (hframe.done_eq.trans hdone) (hframe.finishing_eq.trans hrun) hframe.pos_le hfewer
  | settle hdone hrun hdeep =>
    refine Or.inl ?_
    rw [lostRank_deep hdone hrun hdeep, lostRank_finishing (s := { s with
      pending := lostSettle s.pending, pos := env.size, finishing := true }) hdone rfl]
    exact toLex_lt_iff.mpr (Or.inl (by decide))
  | chunk hdone hrun hdeep hpos =>
    have hframe := @lostDeepChunk_frame env s
    have hnext := lt_lostDeepNext hroom hdeep hpos
    rw [lostRank_deep hdone hrun hdeep, lostRank_deep (hframe.done_eq.trans hdone)
      (hframe.finishing_eq.trans hrun) hdeep, lostDeepChunk_pos]
    rcases Nat.lt_or_eq_of_le hpos with hbefore | hend
    · exact Or.inl (toLex_lt_iff.mpr (Or.inr ⟨rfl, Or.inr ⟨rfl, Or.inr ⟨rfl, by omega⟩⟩⟩))
    · refine Or.inr ⟨⟨hdone, hrun, hend, fun hquick => ?_⟩, ?_, hframe.found_eq⟩
      · rw [hdeep] at hquick
        cases hquick
      · rw [Nat.sub_eq_zero_of_le hend.ge, Nat.sub_eq_zero_of_le (hend ▸ hnext.le)]
  | pending hit _ hdone hrun hget hacts =>
    refine Or.inl (LostFinish.progress hdone hrun hacts ⟨hdone, hrun, rfl, rfl⟩ ?_)
    obtain ⟨hlt, -⟩ := List.getElem?_eq_some_iff.mp hget
    dsimp only
    omega
  | claimed t hdone hrun _ hget =>
    refine Or.inl (@LostFinish.progress _ _ _ _ (fun _ => False) hdone hrun .refl
      ⟨hdone, hrun, rfl, rfl⟩ ?_)
    obtain ⟨hlt, -⟩ := List.getElem?_eq_some_iff.mp hget
    dsimp only
    omega
  | entry t _ hdone hrun _ hget _ hacts =>
    refine Or.inl (LostFinish.progress hdone hrun hacts ⟨hdone, hrun, rfl, rfl⟩ ?_)
    obtain ⟨hlt, -⟩ := List.getElem?_eq_some_iff.mp hget
    dsimp only
    omega
  | ends hdone hrun =>
    refine Or.inl ?_
    rw [lostRank_done rfl, lostRank_finishing hdone hrun]
    exact toLex_lt_iff.mpr (Or.inl (by decide))

end FsRover
