import FsRover.Lost.Hits

/-!
# Table entries and results

A table entry that no result starts at is reported by itself, as a partition. An entry is claimed
when a result at its start is reported after it was remembered; one that is remembered after that
result stays unclaimed, and is reported a second time.

## Main definitions

* `FsRover.LostEntries` : what the entries and the results have to do with each other.
* `FsRover.LostEntriesFresh` : no entry was remembered after a result at its start.

## Main results

* `FsRover.lostScan_partitions` : in a search that is over, every entry is accounted for, and a
  bare partition is reported only where nothing else was found.
-/

namespace FsRover

variable {env : LostSearch} {hitOk : LostHit → Prop} {entryOk : ℕ → ℕ → Prop}

/-- A result of the search starts at `x`. -/
def LostFoundAt (s : LostScan) (x : ℕ) : Prop := ∃ f ∈ s.found, f.start = x

variable (env) in
/-- Kept hits are reported before table entries and no detector names a bare partition; a claimed
entry has a result, and so has each of the first `n` entries unless it lies in a readable
partition. -/
structure LostEntries (n : ℕ) (s : LostScan) : Prop where
  running : s.finishing = false → s.nextTable = 0
  pending : s.nextTable ≠ 0 → s.pending.length ≤ s.nextPending
  kinds : ∀ h ∈ s.pending, h.type ≠ .partition
  found : s.nextTable = 0 → ∀ f ∈ s.found, f.type ≠ .partition
  tables : ∀ t ∈ s.tables, t.size ≠ 0 ∧ t.start < env.size
  claimed : ∀ t ∈ s.tables, t.claimed = true → LostFoundAt s t.start
  passed : ∀ i t, i < n → s.tables[i]? = some t →
    (lostRangeAt env t.start true).isSome = true ∨ LostFoundAt s t.start
  ended : s.done = true → s.finishing = true ∧ s.tables.length ≤ n

/-! ### Changes -/

theorem LostFoundAt.mono {s s' : LostScan} {x : ℕ} (h : LostFoundAt s x)
    (hfound : s.found <+: s'.found) : LostFoundAt s' x :=
  let ⟨f, hf, heq⟩ := h
  ⟨f, hfound.subset hf, heq⟩

/-- Claiming keeps the place, the start and the size of an entry. -/
theorem lostClaim_getElem {tables : List LostTable} {start i : ℕ} {t : LostTable}
    (h : (lostClaim tables start)[i]? = some t) :
    ∃ t₀, tables[i]? = some t₀ ∧ t.start = t₀.start ∧ t.size = t₀.size
      ∧ (t.claimed = true ↔ t₀.start = start ∨ t₀.claimed = true) := by
  unfold lostClaim at h
  rw [List.getElem?_map] at h
  obtain ⟨t₀, ht₀, rfl⟩ := Option.map_eq_some_iff.mp h
  refine ⟨t₀, ht₀, ?_⟩
  split_ifs with hstart <;> simp [hstart]

theorem LostAct.entries {n : ℕ} {s s' : LostScan} (h : LostAct env hitOk entryOk s s')
    (hdone : s.done = false)
    (hhits : ∀ h, hitOk h → s.nextTable = 0 → h.type ≠ .partition)
    (hentries : ∀ a b, entryOk a b → n = 0) (hs : LostEntries env n s) : LostEntries env n s' := by
  have hover : s'.done = true → s'.finishing = true ∧ s'.tables.length ≤ n := fun hd =>
    absurd (h.frame.done_eq ▸ hd) (by simp [hdone])
  cases h with
  | hint => exact ⟨hs.1, hs.2, hs.3, hs.4, hs.5, hs.6, hs.7, hover⟩
  | table start size hentry hsize _ hlt =>
    refine ⟨hs.1, hs.2, hs.3, hs.4, fun t ht => ?_, fun t ht hclaimed => ?_, fun i t hi =>
      ?_, hover⟩
    · rcases List.mem_append.mp ht with ht | ht
      · exact hs.tables t ht
      · rw [List.mem_singleton.mp ht]
        exact ⟨hsize, hlt⟩
    · rcases List.mem_append.mp ht with ht | ht
      · exact hs.claimed t ht hclaimed
      · rw [List.mem_singleton.mp ht] at hclaimed
        cases hclaimed
    · rw [hentries _ _ hentry] at hi
      exact absurd hi (Nat.not_lt_zero i)
  | jump => exact ⟨hs.1, hs.2, hs.3, hs.4, hs.5, hs.6, hs.7, hover⟩
  | record hit hhit hig hnew =>
    have hgrows : ∀ {x}, LostFoundAt s x → LostFoundAt (lostAccept env s (lostEffectiveHit env hit)
        (lostEffectiveHit env hit).endAt) x := fun hx => hx.mono (List.prefix_append _ _)
    have hself : LostFoundAt (lostAccept env s (lostEffectiveHit env hit)
        (lostEffectiveHit env hit).endAt) (lostEffectiveHit env hit).start :=
      ⟨_, List.mem_append_right _ (List.mem_singleton_self _), rfl⟩
    refine ⟨hs.1, hs.2, hs.3, fun hn f hf => ?_, fun t ht => ?_, fun t ht hclaimed => ?_,
      fun i t hi ht => ?_, hover⟩
    · rcases List.mem_append.mp hf with hf | hf
      · exact hs.found hn f hf
      · rw [List.mem_singleton.mp hf]
        exact @lostEffectiveHit_type env hit ▸ hhits hit hhit hn
    · obtain ⟨i, hi⟩ := List.mem_iff_getElem?.mp ht
      obtain ⟨t₀, ht₀, hstart, hsize, -⟩ := lostClaim_getElem hi
      rw [hstart, hsize]
      exact hs.tables t₀ (SortedSearch.mem_of_getElem? ht₀)
    · obtain ⟨i, hi⟩ := List.mem_iff_getElem?.mp ht
      obtain ⟨t₀, ht₀, hstart, -, hiff⟩ := lostClaim_getElem hi
      rw [hstart]
      rcases hiff.mp hclaimed with heq | hold
      · exact heq ▸ hself
      · exact hgrows (hs.claimed t₀ (SortedSearch.mem_of_getElem? ht₀) hold)
    · obtain ⟨t₀, ht₀, hstart, -⟩ := lostClaim_getElem ht
      rw [hstart]
      exact (hs.passed i t₀ hi ht₀).imp_right hgrows

theorem LostActs.entries {n : ℕ} {s s' : LostScan} (h : LostActs env hitOk entryOk s s')
    (hdone : s.done = false)
    (hhits : ∀ h, hitOk h → s.nextTable = 0 → h.type ≠ .partition)
    (hentries : ∀ a b, entryOk a b → n = 0) (hs : LostEntries env n s) : LostEntries env n s' := by
  have hall : LostEntries env n s' ∧ s'.done = false ∧ s'.nextTable = s.nextTable := by
    refine Runs.preserves (P := fun a => LostEntries env n a ∧ a.done = false
      ∧ a.nextTable = s.nextTable) (fun a b hab ha => ?_) h ⟨hs, hdone, rfl⟩
    obtain ⟨ha, hadone, hatable⟩ := ha
    refine ⟨hab.entries hadone (fun h hh hn => hhits h hh (hatable ▸ hn)) hentries ha,
      hab.frame.done_eq.trans hadone, hab.frame.nextTable_eq.trans hatable⟩
  exact hall.1

theorem LostChunkActs.entries {s s' : LostScan} (h : LostChunkActs env hitOk entryOk s s')
    (hdone : s.done = false) (hnext : s.nextTable = 0) (hhits : ∀ h, hitOk h → h.type ≠ .partition)
    (hs : LostEntries env 0 s) : LostEntries env 0 s' := by
  have hall : LostEntries env 0 s' ∧ s'.done = false ∧ s'.nextTable = 0 := by
    refine Runs.preserves (P := fun a => LostEntries env 0 a ∧ a.done = false ∧ a.nextTable = 0)
      (fun a b hab ha => ?_) h ⟨hs, hdone, hnext⟩
    obtain ⟨ha, hadone, hatable⟩ := ha
    cases hab with
    | act h =>
      exact ⟨h.entries hadone (fun _ h => absurd h not_false) (fun _ _ _ => rfl) ha,
        h.frame.done_eq.trans hadone, h.frame.nextTable_eq.trans hatable⟩
    | sector => exact ⟨⟨ha.1, ha.2, ha.3, ha.4, ha.5, ha.6, ha.7, ha.8⟩, hadone, hatable⟩
    | tail => exact ⟨⟨ha.1, ha.2, ha.3, ha.4, ha.5, ha.6, ha.7, ha.8⟩, hadone, hatable⟩
    | pend hs hok =>
      refine ⟨⟨ha.1, fun hn => absurd hatable hn, fun h hh => ?_, ha.4, ha.5, ha.6, ha.7, ha.8⟩,
        hadone, hatable⟩
      rcases mem_foldl_lostPend hh with hh | hh
      · exact ha.kinds h hh
      · exact hhits h (hok h hh)
  exact hall.1

/-- Without new entries every entry keeps its place and its start. -/
theorem LostActs.tables_start {s s' : LostScan} (h : LostActs env hitOk (fun _ _ => False) s s') :
    s'.tables.map (·.start) = s.tables.map (·.start) := by
  refine Runs.preserves (P := fun a => a.tables.map (·.start) = s.tables.map (·.start))
    (fun a b hab ha => ?_) h rfl
  cases hab with
  | hint => exact ha
  | table _ _ hentry => exact absurd hentry not_false
  | jump => exact ha
  | record hit =>
    rw [← ha]
    unfold lostAccept lostRemember lostClaim
    dsimp only
    rw [List.map_map]
    refine List.map_congr_left fun t _ => ?_
    dsimp only [Function.comp]
    split_ifs <;> rfl

/-! ### Rounds -/

theorem LostRound.entries {s s' : LostScan} (h : LostRound env s s')
    (hs : LostEntries env s.nextTable s) : LostEntries env s'.nextTable s' := by
  cases h with
  | finish hdone =>
    exact ⟨(fun h => by cases h), hs.2, hs.3, hs.4, hs.5, hs.6, hs.7,
      fun h => absurd h (by simp [hdone])⟩
  | pass => exact ⟨hs.1, hs.2, hs.3, hs.4, hs.5, hs.6, hs.7, hs.8⟩
  | misaligned => exact ⟨hs.1, hs.2, hs.3, hs.4, hs.5, hs.6, hs.7, hs.8⟩
  | skipRange => exact ⟨hs.1, hs.2, hs.3, hs.4, hs.5, hs.6, hs.7, hs.8⟩
  | visit c _ _ hdone hrun _ _ _ _ hmod _ _ hacts =>
    rw [(LostActs.frame hacts).nextTable_eq]
    refine LostActs.entries hacts hdone (fun h hh _ => ?_) (fun _ _ _ => hs.running hrun)
      ⟨hs.1, hs.2, hs.3, hs.4, hs.5, hs.6, hs.7, hs.8⟩
    exact (@lostQuickHits_ok _ True _ (fun _ => hmod) _ h hh).type
  | settle hdone hrun =>
    exact ⟨(fun h => by cases h), fun hn => absurd (hs.running hrun) hn,
      fun h hh => hs.kinds h (mem_lostSettle hh), hs.4, hs.5, hs.6, hs.7,
      fun h => absurd h (by simp [hdone])⟩
  | chunk hdone hrun =>
    obtain ⟨m, hacts, hm⟩ := @lostDeepChunk_acts env s
    have hnext := hs.running hrun
    rw [hnext] at hs
    have hentries := LostChunkActs.entries hacts hdone hnext
      (fun h ⟨_, hh⟩ => (@LostSectorHit.ok _ False _ _ (fun h => absurd h not_false) _ hh).type) hs
    have hmnext : m.nextTable = 0 := (LostChunkActs.frame hacts).nextTable_eq.trans hnext
    rw [← hmnext] at hentries
    rw [hm]
    exact ⟨hentries.1, hentries.2, hentries.3, hentries.4, hentries.5, hentries.6, hentries.7,
      hentries.8⟩
  | pending hit _ hdone hrun hget hacts =>
    have hlt := (List.getElem?_eq_some_iff.mp hget).1
    have hnext : s.nextTable = 0 := by
      by_contra hn
      exact absurd (hs.pending hn) (not_le.mpr hlt)
    rw [(LostActs.frame hacts).nextTable_eq]
    refine LostActs.entries hacts hdone (fun h hh _ => ?_) (fun _ _ h => absurd h not_false)
      ⟨hs.1, fun hn => absurd hnext hn, hs.3, hs.4, hs.5, hs.6, hs.7, hs.8⟩
    exact hh ▸ hs.kinds hit (SortedSearch.mem_of_getElem? hget)
  | claimed t hdone hrun hpending hget hclaimed =>
    refine ⟨fun h => absurd h (by simp [hrun]), fun _ => hpending, hs.3,
      fun h => absurd h (Nat.succ_ne_zero _), hs.5, hs.6, fun i t' hi hget' => ?_,
      fun h => absurd h (by simp [hdone])⟩
    rcases Nat.lt_succ_iff_lt_or_eq.mp hi with hlt | rfl
    · exact hs.passed i t' hlt hget'
    · obtain rfl := Option.some.inj (hget.symm.trans hget')
      exact Or.inr (hs.claimed t (SortedSearch.mem_of_getElem? hget) hclaimed)
  | entry t _ hdone hrun hpending hget hclaimed hacts hsettled =>
    have hframe := LostActs.frame hacts
    have hafter := LostActs.entries (n := s.nextTable) hacts hdone
      (fun _ _ h => absurd h (Nat.succ_ne_zero _)) (fun _ _ h => absurd h not_false)
      ⟨fun h => absurd h (by simp [hrun]), fun _ => hpending, hs.3,
        fun h => absurd h (Nat.succ_ne_zero _), hs.5, hs.6, hs.7, fun h =>
          absurd h (by simp [hdone])⟩
    rw [hframe.nextTable_eq]
    refine ⟨hafter.1, hafter.2, hafter.3, hafter.4, hafter.5, hafter.6, fun i t' hi hget' => ?_,
      fun h => absurd (hframe.done_eq ▸ h) (by simp [hdone])⟩
    rcases Nat.lt_succ_iff_lt_or_eq.mp hi with hlt | rfl
    · exact hafter.passed i t' hlt hget'
    · have hstart : t'.start = t.start := by
        have hmap := congrArg (·[s.nextTable]?) (LostActs.tables_start hacts)
        simp only [List.getElem?_map, hget, hget', Option.map_some, Option.some.injEq] at hmap
        exact hmap
      obtain ⟨hsize, hlt⟩ := hs.tables t (SortedSearch.mem_of_getElem? hget)
      rw [hstart]
      rcases hsettled with hig | hmem
      · refine Or.inl ?_
        unfold lostIgnores lostSetHit at hig
        simp only [Bool.or_eq_true, decide_eq_true_eq] at hig
        rcases hig with (hig | hig) | hig
        · exact absurd hig hsize
        · omega
        · exact hig
      · exact Or.inr ⟨_, hmem, rfl⟩
  | ends hdone hrun hpending htables =>
    exact ⟨hs.1, hs.2, hs.3, hs.4, hs.5, hs.6, hs.7, fun _ => ⟨hrun, htables⟩⟩

theorem LostReach.entries {s : LostScan} (h : LostReach env s) :
    LostEntries env s.nextTable s := by
  refine h.preserves (P := fun s => LostEntries env s.nextTable s) ?_ fun a b hab ha => ?_
  · obtain ⟨m, hacts, hm⟩ := @roverLostScanBegin_acts env
    have hempty : LostEntries env 0 .empty :=
      ⟨fun _ => rfl, fun h => absurd rfl h, fun _ h => absurd h List.not_mem_nil,
        fun _ _ h => absurd h List.not_mem_nil, fun _ h => absurd h List.not_mem_nil,
        fun _ h => absurd h List.not_mem_nil, fun _ _ h => absurd h (Nat.not_lt_zero _),
        fun h => by cases h⟩
    have hentries := LostActs.entries hacts rfl (fun _ h => absurd h not_false) (fun _ _ _ => rfl)
      hempty
    have hnext : m.nextTable = 0 := (LostActs.frame hacts).nextTable_eq
    rw [← hnext] at hentries
    rw [hm]
    exact ⟨hentries.1, hentries.2, hentries.3, hentries.4, hentries.5, hentries.6, hentries.7,
      hentries.8⟩
  · cases hab with
    | round h => exact h.entries ha
    | clamp => exact ⟨ha.1, ha.2, ha.3, ha.4, ha.5, ha.6, ha.7, ha.8⟩

/-! ### Entries remembered in time -/

/-- No result started at an entry when it was remembered. -/
def LostEntriesFresh (trace : List LostEvent) : Prop :=
  ∀ start size founds, LostEvent.table start size founds ∈ trace → start ∉ founds

theorem LostEntriesFresh.suffix {old new : List LostEvent} (h : LostEntriesFresh new)
    (hsuffix : old <:+ new) : LostEntriesFresh old :=
  fun start size founds hmem => h start size founds (hsuffix.subset hmem)

/-- No result starts at an entry that is not claimed. -/
def LostUnclaimed (s : LostScan) : Prop :=
  ∀ t ∈ s.tables, t.claimed = false → ¬ LostFoundAt s t.start

/-- Where a bare partition was reported nothing else was. -/
def LostAlone (s : LostScan) : Prop :=
  ∀ f ∈ s.found, f.type = .partition → ∀ g ∈ s.found, g.start = f.start → g.type = .partition

theorem LostAct.unclaimed {s s' : LostScan} (h : LostAct env hitOk entryOk s s')
    (hfresh : LostEntriesFresh s'.trace) (hs : LostUnclaimed s) : LostUnclaimed s' := by
  cases h with
  | hint => exact hs
  | jump => exact hs
  | table start size =>
    intro t ht hclaimed ⟨f, hf, heq⟩
    rcases List.mem_append.mp ht with ht | ht
    · exact hs t ht hclaimed ⟨f, hf, heq⟩
    · rw [List.mem_singleton.mp ht] at heq
      exact hfresh start size _ List.mem_cons_self (List.mem_map.mpr ⟨f, hf, heq⟩)
  | record hit =>
    intro t ht hclaimed ⟨f, hf, heq⟩
    obtain ⟨i, hi⟩ := List.mem_iff_getElem?.mp ht
    obtain ⟨t₀, ht₀, hstart, -, hiff⟩ := lostClaim_getElem hi
    obtain ⟨hne, hold⟩ := not_or.mp (mt hiff.mpr (by simp [hclaimed]))
    rcases List.mem_append.mp hf with hf | hf
    · exact hs t₀ (SortedSearch.mem_of_getElem? ht₀) (by simpa using hold)
        ⟨f, hf, heq.trans hstart⟩
    · rw [List.mem_singleton.mp hf] at heq
      exact hne (hstart.symm.trans heq.symm)

theorem LostActs.unclaimed {s s' : LostScan} (h : LostActs env hitOk entryOk s s')
    (hfresh : LostEntriesFresh s'.trace) (hs : LostUnclaimed s) : LostUnclaimed s' := by
  induction h with
  | refl => exact hs
  | tail _ hab ih => exact hab.unclaimed hfresh (ih (hfresh.suffix hab.frame.trace_suffix))

theorem LostChunkActs.unclaimed {s s' : LostScan} (h : LostChunkActs env hitOk entryOk s s')
    (hfresh : LostEntriesFresh s'.trace) (hs : LostUnclaimed s) : LostUnclaimed s' := by
  induction h with
  | refl => exact hs
  | tail _ hab ih =>
    have hgrows := LostChunkActs.grows (.single hab)
    have ha := ih (hfresh.suffix hgrows.trace)
    cases hab with
    | act h => exact h.unclaimed hfresh ha
    | _ => exact ha

theorem LostStep.unclaimed {s s' : LostScan} (h : LostStep env s s')
    (hfresh : LostEntriesFresh s'.trace) (hs : LostUnclaimed s) : LostUnclaimed s' := by
  cases h with
  | clamp => exact hs
  | round h =>
    cases h with
    | visit _ _ _ _ _ _ _ _ _ _ _ _ hacts => exact LostActs.unclaimed hacts hfresh hs
    | chunk =>
      obtain ⟨m, hacts, hm⟩ := @lostDeepChunk_acts env s
      rw [hm] at hfresh ⊢
      have hm : LostUnclaimed m := LostChunkActs.unclaimed hacts hfresh hs
      exact hm
    | pending _ _ _ _ _ hacts => exact LostActs.unclaimed hacts hfresh hs
    | entry _ _ _ _ _ _ _ hacts => exact LostActs.unclaimed hacts hfresh hs
    | _ => exact hs

theorem LostReach.unclaimed {s : LostScan} (h : LostReach env s)
    (hfresh : LostEntriesFresh s.trace) : LostUnclaimed s := by
  refine h.preserves (P := fun s => LostEntriesFresh s.trace → LostUnclaimed s) ?_
    (fun a b hab ha hfresh => hab.unclaimed hfresh (ha (hfresh.suffix hab.grows.trace))) hfresh
  obtain ⟨m, hacts, hm⟩ := @roverLostScanBegin_acts env
  rw [hm]
  intro hfresh
  have hunclaimed : LostUnclaimed m :=
    LostActs.unclaimed hacts hfresh fun t ht => absurd ht List.not_mem_nil
  exact hunclaimed

/-- Before the first table entry is reported there is no bare partition. -/
theorem LostEntries.alone {n : ℕ} {s : LostScan} (h : LostEntries env n s)
    (hnext : s.nextTable = 0) : LostAlone s :=
  fun f hf hpartition => absurd hpartition (h.found hnext f hf)

theorem LostActs.alone {s s' : LostScan} {t : LostTable}
    (h : LostActs env (· = lostSetHit t.start t.size .partition false) entryOk s s')
    (hnone : ¬ LostFoundAt s t.start) (hs : LostAlone s) : LostAlone s' := by
  have hfound : ∀ f ∈ s'.found, f ∈ s.found ∨ f.start = t.start ∧ f.type = .partition := by
    refine Runs.preserves (P := fun a => ∀ f ∈ a.found, f ∈ s.found
      ∨ f.start = t.start ∧ f.type = .partition) (fun a b hab ha => ?_) h fun f hf => Or.inl hf
    cases hab with
    | record hit hhit =>
      intro f hf
      rcases List.mem_append.mp hf with hf | hf
      · exact ha f hf
      · refine Or.inr ?_
        rw [List.mem_singleton.mp hf, lostEffectiveHit_start, lostEffectiveHit_type, hhit]
        exact ⟨rfl, rfl⟩
    | _ => exact ha
  intro f hf hpartition g hg heq
  rcases hfound g hg with hgold | ⟨-, hgnew⟩
  · rcases hfound f hf with hfold | ⟨hfnew, -⟩
    · exact hs f hfold hpartition g hgold heq
    · exact absurd ⟨g, hgold, heq.trans hfnew⟩ hnone
  · exact hgnew

theorem LostStep.alone {s s' : LostScan} (h : LostStep env s s') (hreach : LostReach env s)
    (hunclaimed : LostUnclaimed s) (hs : LostAlone s) : LostAlone s' := by
  have hentries := LostReach.entries (hreach.tail h)
  cases h with
  | clamp => exact hs
  | round h =>
    cases h with
    | visit _ _ _ _ hrun _ _ _ _ _ _ _ hacts =>
      exact hentries.alone (hentries.running ((LostActs.frame hacts).finishing_eq.trans hrun))
    | chunk _ hrun =>
      exact hentries.alone (hentries.running ((lostDeepChunk_frame s).finishing_eq.trans hrun))
    | pending hit _ _ _ hget hacts =>
      have hlt := (List.getElem?_eq_some_iff.mp hget).1
      refine hentries.alone ((LostActs.frame hacts).nextTable_eq.trans ?_)
      by_contra hn
      exact absurd (hreach.entries.pending hn) (not_le.mpr hlt)
    | entry t _ _ _ _ hget hclaimed hacts =>
      exact LostActs.alone hacts (hunclaimed t (SortedSearch.mem_of_getElem? hget) hclaimed) hs
    | _ => exact hs

theorem LostReach.alone {s : LostScan} (h : LostReach env s)
    (hfresh : LostEntriesFresh s.trace) : LostAlone s := by
  induction h with
  | refl =>
    refine (LostReach.entries .refl).alone ?_
    obtain ⟨m, hacts, hm⟩ := @roverLostScanBegin_acts env
    rw [hm]
    exact (LostActs.frame hacts).nextTable_eq
  | tail hreach hab ih =>
    have hbefore := hfresh.suffix hab.grows.trace
    exact hab.alone hreach (LostReach.unclaimed hreach hbefore) (ih hbefore)

/-- In a search that is over, every remembered entry starts in a readable partition or where a
result starts; and if no result started at an entry when it was remembered, a bare partition is
reported only where nothing else is. -/
theorem lostScan_partitions {s : LostScan} (h : LostCalls env s) (hdone : s.done = true) :
    (∀ t ∈ s.tables, (lostRangeAt env t.start true).isSome = true
      ∨ ∃ p ∈ s.reports, p.offset = t.start)
    ∧ (LostEntriesFresh s.trace → ∀ p ∈ s.reports, p.type = .partition →
      ∀ q ∈ s.reports, q.offset = p.offset → q.type = .partition) := by
  have hreach := h.reach
  have hreports := hreach.reports
  constructor
  · intro t ht
    obtain ⟨i, hi⟩ := List.mem_iff_getElem?.mp ht
    have hentries := hreach.entries
    have hlt := (List.getElem?_eq_some_iff.mp hi).1
    refine (hentries.passed i t (lt_of_lt_of_le hlt (hentries.ended hdone).2) hi).imp_right ?_
    rintro ⟨f, hf, heq⟩
    rw [← hreports] at hf
    obtain ⟨p, hp, rfl⟩ := List.mem_map.mp hf
    exact ⟨p, hp, heq⟩
  · intro hfresh p hp hpartition q hq heq
    have halone := hreach.alone hfresh
    unfold LostAlone at halone
    rw [← hreports] at halone
    exact halone p.found (List.mem_map_of_mem hp) hpartition q.found (List.mem_map_of_mem hq) heq

/-- The entry of an extended boot record, where no filesystem is. -/
def lostLogicalDisk : LostSearch :=
  .ofImage 144 0 (.ofFields [(32706, [0x83]), (32710, [65]), (32714, [8]), (32766, [0x55, 0xaa])])
    [] false

/-- An event that remembers no entry too late. -/
def LostEvent.fresh : LostEvent → Bool
  | .table start _ foundStarts => !foundStarts.contains start
  | _ => true

theorem LostEntriesFresh.of_fresh {trace : List LostEvent}
    (h : ∀ e ∈ trace, e.fresh = true) : LostEntriesFresh trace := by
  intro start size founds hmem
  simpa [LostEvent.fresh] using h _ hmem

theorem lostLogicalDisk_partitions : ∃ s, LostCalls lostLogicalDisk s ∧ s.done = true
    ∧ s.tables ≠ []
    ∧ (∀ t ∈ s.tables, (lostRangeAt lostLogicalDisk t.start true).isSome = true
      ∨ ∃ p ∈ s.reports, p.offset = t.start)
    ∧ ∀ p ∈ s.reports, p.type = .partition → ∀ q ∈ s.reports, q.offset = p.offset →
      q.type = .partition := by
  have heval : (roverLostScanStep lostLogicalDisk 40 (fun _ => false)
      (roverLostScanBegin lostLogicalDisk) 0).map
      (fun r => (r.2.done, r.2.trace.all LostEvent.fresh, r.2.tables.isEmpty))
        = some (true, true, false) := by
    decide +kernel
  obtain ⟨⟨ret, s⟩, hcall, hstate⟩ := Option.map_eq_some_iff.mp heval
  simp only [Prod.mk.injEq] at hstate
  obtain ⟨hdone, hfresh, hsome⟩ := hstate
  have hcalls : LostCalls lostLogicalDisk s := .step .begin hcall
  obtain ⟨hentries, hpure⟩ := lostScan_partitions hcalls hdone
  exact ⟨s, hcalls, hdone, by simpa using hsome, hentries,
    hpure (.of_fresh (List.all_eq_true.mp hfresh))⟩

/-- An F2FS of 64 KiB hides an extended boot record whose entry is another F2FS, of 4 KiB. The
alternate header of an HFS+ volume that reaches into the first one makes the search go back. -/
def lostStaleEntryDisk : LostSearch :=
  .ofImage 144 0 (.ofFields [(1024, [0x10, 0x20, 0xf5, 0xf2]), (1032, [9, 0, 0, 0, 3, 0, 0, 0, 12]),
    (1060, [16]), (32706, [0x83]), (32710, [65]), (32714, [8]), (32766, [0x55, 0xaa]),
    (66560, [0x10, 0x20, 0xf5, 0xf2]), (66568, [9, 0, 0, 0, 3, 0, 0, 0, 12]), (66596, [1]),
    (68608, [0x48, 0x2b, 0, 4]), (68650, [0x10]), (68655, [16])]) [] false

/-- The second F2FS is reported again, as a bare partition. -/
theorem lostStaleEntryDisk_reports_twice :
    ¬ ∀ env : LostSearch, ∀ s, LostCalls env s → s.done = true →
      (∀ t ∈ s.tables, (lostRangeAt env t.start true).isSome = true
        ∨ ∃ p ∈ s.reports, p.offset = t.start)
      ∧ ∀ p ∈ s.reports, p.type = .partition → ∀ q ∈ s.reports, q.offset = p.offset →
        q.type = .partition := by
  intro hclaim
  have heval : (roverLostScanStep lostStaleEntryDisk 60 (fun _ => false)
      (roverLostScanBegin lostStaleEntryDisk) 0).map
      (fun r => (r.2.done, r.2.reports.map fun p => (p.offset, p.size, p.type)))
        = some (true, [(0, 65536, .f2fs), (65536, 4096, .f2fs), (4096, 65536, .hfsplus),
          (65536, 4096, .partition)]) := by
    decide +kernel
  obtain ⟨⟨ret, s⟩, hcall, hstate⟩ := Option.map_eq_some_iff.mp heval
  obtain ⟨hdone, hreports⟩ := Prod.mk.inj hstate
  have hmem : ∀ r, r ∈ [(0, 65536, LostType.f2fs), (65536, 4096, .f2fs), (4096, 65536, .hfsplus),
      (65536, 4096, .partition)] → ∃ p ∈ s.reports, (p.offset, p.size, p.type) = r := by
    intro r hr
    rw [← hreports] at hr
    exact List.mem_map.mp hr
  obtain ⟨p, hp, hpeq⟩ := hmem (65536, 4096, .partition) (by decide)
  obtain ⟨q, hq, hqeq⟩ := hmem (65536, 4096, .f2fs) (by decide)
  simp only [Prod.mk.injEq] at hpeq hqeq
  have htype := (hclaim _ s (.step .begin hcall) hdone).2 p hp hpeq.2.2 q hq
    (hqeq.1.trans hpeq.1.symm)
  rw [hqeq.2.2] at htype
  cases htype

end FsRover
