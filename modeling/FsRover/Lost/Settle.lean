import FsRover.Lost.Scan

/-!
# What a deep search keeps in the end

`lost_settle` sorts the pending hits and drops those that start inside another of the same type and
size. It compacts the array while it still compares with all of it, so a hit that was dropped is
compared with only until a later one takes its place.

## Main definitions

* `FsRover.LostSettlesTo` : what the hits that are left should be.
* `FsRover.LostStillSeen` : each hit that is to be dropped has another to compare with that is kept,
  or that is behind the places written so far.

## Main results

* `FsRover.lostSettle_settled_iff` : the right hits are left exactly if it holds.
* `FsRover.lostSettle_keeps_copy` : hits of another type make a copy stay.
-/

namespace FsRover

/-- The hits after the insertion sort of `lost_settle`. -/
def lostSorted (pending : List LostHit) : List LostHit :=
  (pending.foldl (fun sorted h => lostInsertHit h sorted) []).reverse

/-- No hit of the list starts before `h` with `h` inside. -/
def lostIsPrimary (pending : List LostHit) (h : LostHit) : Bool := !pending.any h.copyOf

/-- What `out` should be: the hits of the list that start inside no other of their type and size, in
ascending order of start, ties as they arrived. -/
structure LostSettlesTo (pending out : List LostHit) : Prop where
  hits : out.Perm (pending.filter (lostIsPrimary pending))
  ascending : out.Pairwise fun a b => a.start ≤ b.start
  ties : ∀ x, out.filter (·.start = x) = (pending.filter (lostIsPrimary pending)).filter (·.start = x)

/-- With the hits in order, each one that starts inside another starts inside one that is kept, or
inside one whose place is not before the number of hits kept until then. -/
def LostStillSeen (pending : List LostHit) : Prop :=
  ∀ i b, (lostSorted pending)[i]? = some b → lostIsPrimary pending b = false →
    ∃ j a, (lostSorted pending)[j]? = some a ∧ b.copyOf a = true
      ∧ (lostIsPrimary pending a = true
        ∨ (((lostSorted pending).take i).filter (lostIsPrimary pending)).length ≤ j)

/-! ### Sorting -/

theorem lostInsertHit_perm (h : LostHit) (sorted : List LostHit) :
    (lostInsertHit h sorted).Perm (h :: sorted) := by
  induction sorted with
  | nil => exact .refl _
  | cons a sorted ih =>
    rw [lostInsertHit]
    split_ifs
    · exact (ih.cons a).trans (.swap h a sorted)
    · exact .refl _

theorem lostInsertHit_pairwise {h : LostHit} {sorted : List LostHit}
    (hsorted : sorted.Pairwise fun a b => b.start ≤ a.start) :
    (lostInsertHit h sorted).Pairwise fun a b => b.start ≤ a.start := by
  induction sorted with
  | nil => exact List.pairwise_singleton _ h
  | cons a sorted ih =>
    obtain ⟨ha, hrest⟩ := List.pairwise_cons.mp hsorted
    rw [lostInsertHit]
    split_ifs with hlt
    · refine List.pairwise_cons.mpr ⟨fun b hb => ?_, ih hrest⟩
      rcases List.mem_cons.mp ((lostInsertHit_perm h sorted).mem_iff.mp hb) with rfl | hb
      · exact Nat.le_of_lt hlt
      · exact ha b hb
    · refine List.pairwise_cons.mpr ⟨fun b hb => ?_, hsorted⟩
      rcases List.mem_cons.mp hb with rfl | hb
      · exact Nat.not_lt.mp hlt
      · exact Nat.le_trans (ha b hb) (Nat.not_lt.mp hlt)

/-- Insertion puts a hit before those that start where it does. -/
theorem lostInsertHit_filter {h : LostHit} {sorted : List LostHit} (x : ℕ) :
    (lostInsertHit h sorted).filter (·.start = x) = (h :: sorted).filter (·.start = x) := by
  induction sorted with
  | nil => rfl
  | cons a sorted ih =>
    rw [lostInsertHit]
    split_ifs with hlt
    · rw [List.filter_cons, ih, List.filter_cons, List.filter_cons, List.filter_cons]
      by_cases ha : a.start = x
      · have hh : ¬ h.start = x := by omega
        simp [ha, hh]
      · simp [ha]
    · rfl

theorem lostSort_spec (pending : List LostHit) : ∀ sorted : List LostHit,
    (sorted.Pairwise fun a b => b.start ≤ a.start) →
    (pending.foldl (fun sorted h => lostInsertHit h sorted) sorted).Perm (pending ++ sorted)
      ∧ ((pending.foldl (fun sorted h => lostInsertHit h sorted) sorted).Pairwise
        fun a b => b.start ≤ a.start)
      ∧ ∀ x, (pending.foldl (fun sorted h => lostInsertHit h sorted) sorted).filter (·.start = x)
        = (pending.reverse ++ sorted).filter (·.start = x) := by
  induction pending with
  | nil => exact fun sorted hsorted => ⟨.refl _, hsorted, fun x => rfl⟩
  | cons h pending ih =>
    intro sorted hsorted
    obtain ⟨hperm, hpairwise, hfilter⟩ := ih _ (lostInsertHit_pairwise hsorted)
    refine ⟨?_, hpairwise, fun x => ?_⟩
    · refine hperm.trans (((lostInsertHit_perm h sorted).append_left pending).trans ?_)
      exact List.perm_middle
    · rw [List.foldl_cons, hfilter x, List.filter_append, lostInsertHit_filter, ← List.filter_append,
        List.reverse_cons, List.append_assoc, List.singleton_append]

theorem lostSorted_perm (pending : List LostHit) : (lostSorted pending).Perm pending := by
  have hperm := (lostSort_spec pending [] List.Pairwise.nil).1
  rw [List.append_nil] at hperm
  exact (List.reverse_perm _).trans hperm

theorem lostSorted_pairwise (pending : List LostHit) :
    (lostSorted pending).Pairwise fun a b => a.start ≤ b.start :=
  List.pairwise_reverse.mpr (lostSort_spec pending [] List.Pairwise.nil).2.1

theorem lostSorted_filter (pending : List LostHit) (x : ℕ) :
    (lostSorted pending).filter (·.start = x) = pending.filter (·.start = x) := by
  have hfilter := (lostSort_spec pending [] List.Pairwise.nil).2.2 x
  rw [List.append_nil] at hfilter
  rw [lostSorted, List.filter_reverse, hfilter, List.filter_reverse, List.reverse_reverse]

theorem lostIsPrimary_eq_false_iff {pending : List LostHit} {b : LostHit} :
    lostIsPrimary pending b = false ↔ ∃ a ∈ lostSorted pending, b.copyOf a = true := by
  rw [lostIsPrimary, Bool.not_eq_false', List.any_eq_true]
  exact exists_congr fun a => and_congr_left' (lostSorted_perm pending).mem_iff.symm

/-- The sorted hits, without the copies, are what should be left. -/
theorem lostSettled_sorted (pending : List LostHit) :
    LostSettlesTo pending ((lostSorted pending).filter (lostIsPrimary pending)) where
  hits := (lostSorted_perm pending).filter _
  ascending := (lostSorted_pairwise pending).filter _
  ties x := by
    rw [List.filter_comm, lostSorted_filter, List.filter_comm]

/-! ### Compacting -/

theorem LostHit.copyOf_self (b : LostHit) : b.copyOf b = false := by
  rw [LostHit.copyOf]
  simp

/-- The second loop, by what it has kept: `b` is compared with that, and with the places behind. -/
def lostKeep (sorted : List LostHit) : List LostHit → List LostHit → List LostHit
  | kept, [] => kept
  | kept, b :: rest =>
    if (kept ++ sorted.drop kept.length).any b.copyOf then lostKeep sorted kept rest
    else lostKeep sorted (kept ++ [b]) rest

/-- The comparison of an entry of the array with the others. -/
theorem lostCompact_any {hits : List LostHit} {i : ℕ} {b : LostHit} (hb : hits[i]? = some b) :
    (hits.zipIdx.any fun a => a.2 ≠ i && b.copyOf a.1) = hits.any b.copyOf := by
  rw [Bool.eq_iff_iff, List.any_eq_true, List.any_eq_true]
  constructor
  · rintro ⟨⟨a, j⟩, hmem, ha⟩
    rw [Bool.and_eq_true] at ha
    exact ⟨a, List.mem_of_getElem? (List.mem_zipIdx_iff_getElem?.mp hmem), ha.2⟩
  · rintro ⟨a, hmem, ha⟩
    obtain ⟨j, hj⟩ := List.mem_iff_getElem?.mp hmem
    refine ⟨(a, j), List.mem_zipIdx_iff_getElem?.mpr hj, ?_⟩
    rw [Bool.and_eq_true, decide_eq_true_eq]
    refine ⟨?_, ha⟩
    rintro rfl
    obtain rfl := Option.some.inj (hb.symm.trans hj)
    rw [LostHit.copyOf_self] at ha
    cases ha

/-- The array holds what is kept, and behind that what was there. -/
theorem lostCompact_eq (sorted : List LostHit) : ∀ (n i : ℕ) (kept : List LostHit),
    i + n = sorted.length → kept.length ≤ i →
    lostCompact (kept ++ sorted.drop kept.length) i kept.length n
      = lostKeep sorted kept (sorted.drop i) := by
  intro n
  induction n with
  | zero =>
    intro i kept hi _
    rw [lostCompact, List.drop_of_length_le (by omega : sorted.length ≤ i), lostKeep,
      List.take_left]
  | succ n ih =>
    intro i kept hi hkept
    have hlt : i < sorted.length := by omega
    have hget : (kept ++ sorted.drop kept.length)[i]? = some sorted[i] := by
      rw [List.getElem?_append_right hkept, List.getElem?_drop,
        show kept.length + (i - kept.length) = i by omega, List.getElem?_eq_getElem hlt]
    rw [lostCompact, hget, List.drop_eq_getElem_cons hlt, lostKeep]
    simp only
    rw [lostCompact_any hget]
    by_cases hany : (kept ++ sorted.drop kept.length).any sorted[i].copyOf = true
    · rw [if_pos hany, if_pos hany]
      exact ih (i + 1) kept (by omega) (by omega)
    · rw [if_neg hany, if_neg hany]
      have hset : (kept ++ sorted.drop kept.length).set kept.length sorted[i]
          = (kept ++ [sorted[i]]) ++ sorted.drop (kept ++ [sorted[i]]).length := by
        rw [List.set_append_right _ _ (Nat.le_refl _), Nat.sub_self,
          List.drop_eq_getElem_cons (by omega : kept.length < sorted.length), List.set_cons_zero,
          List.length_append, List.length_singleton, List.append_assoc, List.singleton_append]
      rw [hset, show kept.length + 1 = (kept ++ [sorted[i]]).length by
        rw [List.length_append, List.length_singleton]]
      exact ih (i + 1) _ (by omega) (by rw [List.length_append, List.length_singleton]; omega)

theorem lostSettle_eq (pending : List LostHit) :
    lostSettle pending = lostKeep (lostSorted pending) [] (lostSorted pending) :=
  lostCompact_eq (lostSorted pending) (lostSorted pending).length 0 [] (Nat.zero_add _) (Nat.le_refl 0)

theorem mem_lostKeep {sorted : List LostHit} {h : LostHit} : ∀ rest kept : List LostHit,
    h ∈ kept → h ∈ lostKeep sorted kept rest := by
  intro rest
  induction rest with
  | nil => exact fun kept hh => hh
  | cons b rest ih =>
    intro kept hh
    rw [lostKeep]
    split_ifs
    · exact ih kept hh
    · exact ih _ (List.mem_append_left _ hh)

/-- While only copies have been dropped, the loop drops the others exactly if each of them is still
compared with a hit that it starts in. -/
theorem lostKeep_eq_iff {sorted : List LostHit} {primary : LostHit → Bool}
    (hprimary : ∀ b, primary b = false ↔ ∃ a ∈ sorted, b.copyOf a = true) :
    ∀ rest done, sorted = done ++ rest →
      ((∀ h ∈ lostKeep sorted (done.filter primary) rest, primary h = true)
        → ∀ i b, done.length ≤ i → sorted[i]? = some b → primary b = false →
          ∃ a ∈ (sorted.take i).filter primary
            ++ sorted.drop ((sorted.take i).filter primary).length, b.copyOf a = true)
      ∧ ((∀ i b, done.length ≤ i → sorted[i]? = some b → primary b = false →
          ∃ a ∈ (sorted.take i).filter primary
            ++ sorted.drop ((sorted.take i).filter primary).length, b.copyOf a = true)
        → lostKeep sorted (done.filter primary) rest = sorted.filter primary) := by
  intro rest
  induction rest with
  | nil =>
    intro done hdone
    rw [List.append_nil] at hdone
    subst hdone
    refine ⟨fun _ i b hi hb => ?_, fun _ => rfl⟩
    rw [List.getElem?_eq_none hi] at hb
    cases hb
  | cons b rest ih =>
    intro done hdone
    have hdone' : sorted = (done ++ [b]) ++ rest := by
      rw [hdone, List.append_assoc, List.singleton_append]
    have htake : sorted.take done.length = done := by rw [hdone, List.take_left]
    have hget : sorted[done.length]? = some b := by
      rw [hdone, List.getElem?_append_right (Nat.le_refl _), Nat.sub_self]
      rfl
    obtain ⟨hfwd, hbwd⟩ := ih (done ++ [b]) hdone'
    -- what holds of the places behind holds of all, if it holds of `b`
    have hsplit : ∀ (P : ℕ → LostHit → Prop), P done.length b →
        (∀ i c, (done ++ [b]).length ≤ i → sorted[i]? = some c → P i c) →
        ∀ i c, done.length ≤ i → sorted[i]? = some c → P i c := by
      intro P hb hlater i c hi hc
      rcases Nat.lt_or_eq_of_le hi with hlt | rfl
      · refine hlater i c ?_ hc
        rw [List.length_append, List.length_singleton]
        exact hlt
      · obtain rfl := Option.some.inj (hget.symm.trans hc)
        exact hb
    have hlater : ∀ (P : ℕ → LostHit → Prop),
        (∀ i c, done.length ≤ i → sorted[i]? = some c → P i c) →
        ∀ i c, (done ++ [b]).length ≤ i → sorted[i]? = some c → P i c := by
      intro P h i c hi hc
      rw [List.length_append, List.length_singleton] at hi
      exact h i c (by omega) hc
    rw [lostKeep]
    by_cases hany : (done.filter primary ++ sorted.drop (done.filter primary).length).any b.copyOf
        = true
    · obtain ⟨a, ha, hcopy⟩ := List.any_eq_true.mp hany
      have hb : primary b = false := by
        refine (hprimary b).mpr ⟨a, ?_, hcopy⟩
        rcases List.mem_append.mp ha with ha | ha
        · rw [hdone]
          exact List.mem_append_left _ (List.mem_of_mem_filter ha)
        · exact List.mem_of_mem_drop ha
      have hfilter : (done ++ [b]).filter primary = done.filter primary := by
        rw [List.filter_append, List.filter_singleton, hb]
        exact List.append_nil _
      rw [if_pos hany]
      rw [hfilter] at hfwd hbwd
      refine ⟨fun h => hsplit _ (fun _ => ?_) (hfwd h), fun h => hbwd (hlater _ h)⟩
      rw [htake]
      exact ⟨a, ha, hcopy⟩
    · rw [if_neg hany]
      cases hb : primary b with
      | true =>
        have hfilter : (done ++ [b]).filter primary = done.filter primary ++ [b] := by
          rw [List.filter_append, List.filter_singleton, hb]
          rfl
        rw [hfilter] at hfwd hbwd
        refine ⟨fun h => hsplit _ (fun hb' => ?_) (hfwd h), fun h => hbwd (hlater _ h)⟩
        rw [hb] at hb'
        cases hb'
      | false =>
        constructor
        · intro h
          have hkept := h b (mem_lostKeep rest _ (List.mem_append_right _ List.mem_cons_self))
          rw [hb] at hkept
          cases hkept
        · intro h
          obtain ⟨a, ha, hcopy⟩ := h done.length b (Nat.le_refl _) hget hb
          rw [htake] at ha
          exact absurd (List.any_eq_true.mpr ⟨a, ha, hcopy⟩) hany

theorem lostStillSeen_iff (pending : List LostHit) : LostStillSeen pending ↔
    ∀ i b, (lostSorted pending)[i]? = some b → lostIsPrimary pending b = false →
      ∃ a ∈ ((lostSorted pending).take i).filter (lostIsPrimary pending)
        ++ (lostSorted pending).drop
          (((lostSorted pending).take i).filter (lostIsPrimary pending)).length,
        b.copyOf a = true := by
  refine forall_congr' fun i => forall_congr' fun b => forall_congr' fun hb =>
    forall_congr' fun _ => ?_
  constructor
  · rintro ⟨j, a, ha, hcopy, hseen⟩
    refine ⟨a, List.mem_append.mpr ?_, hcopy⟩
    rcases hseen with hprimary | hj
    · refine .inl (List.mem_filter.mpr ⟨?_, hprimary⟩)
      -- it starts before `b`, so it lies before
      have hlt : a.start < b.start := by
        rw [LostHit.copyOf] at hcopy
        simp only [Bool.and_eq_true, decide_eq_true_eq] at hcopy
        exact hcopy.1.2
      have hji : j < i := by
        rcases Nat.lt_trichotomy j i with hji | rfl | hij
        · exact hji
        · obtain rfl := Option.some.inj (hb.symm.trans ha)
          exact absurd hlt (Nat.lt_irrefl _)
        · obtain ⟨hi', rfl⟩ := List.getElem?_eq_some_iff.mp hb
          obtain ⟨hj', rfl⟩ := List.getElem?_eq_some_iff.mp ha
          have hle := List.pairwise_iff_getElem.mp (lostSorted_pairwise pending) i j hi' hj' hij
          omega
      refine List.mem_of_getElem? (i := j) ?_
      rw [List.getElem?_take_of_lt hji, ha]
    · refine .inr (List.mem_of_getElem?
        (i := j - (((lostSorted pending).take i).filter (lostIsPrimary pending)).length) ?_)
      rw [List.getElem?_drop, Nat.add_sub_cancel' hj, ha]
  · rintro ⟨a, ha, hcopy⟩
    rcases List.mem_append.mp ha with ha | ha
    · obtain ⟨hmem, hprimary⟩ := List.mem_filter.mp ha
      obtain ⟨j, hj⟩ := List.mem_iff_getElem?.mp (List.mem_of_mem_take hmem)
      exact ⟨j, a, hj, hcopy, .inl hprimary⟩
    · obtain ⟨k, hk⟩ := List.mem_iff_getElem?.mp ha
      rw [List.getElem?_drop] at hk
      exact ⟨_, a, hk, hcopy, .inr (Nat.le_add_right _ _)⟩

/-- The right hits are left exactly if each copy is still compared with a hit it starts in. -/
theorem lostSettle_settled_iff (pending : List LostHit) :
    LostSettlesTo pending (lostSettle pending) ↔ LostStillSeen pending := by
  obtain ⟨hfwd, hbwd⟩ := lostKeep_eq_iff (fun b => @lostIsPrimary_eq_false_iff pending b)
    (lostSorted pending) [] rfl
  rw [lostStillSeen_iff, lostSettle_eq]
  constructor
  · intro h i b hb
    refine hfwd (fun h' hh' => ?_) i b (Nat.zero_le i) hb
    exact (List.mem_filter.mp (h.hits.mem_iff.mp hh')).2
  · intro h
    have heq : lostKeep (lostSorted pending) [] (lostSorted pending) = _ :=
      hbwd fun i b _ hb => h i b hb
    rw [heq]
    exact lostSettled_sorted pending

/-- Three ext2 hits, each inside the one before it, with a FAT hit before the last. -/
def lostChain : List LostHit :=
  [⟨0, 5120, .ext2, false, []⟩, ⟨3072, 5120, .ext2, false, []⟩, ⟨5632, 512, .fat12, false, []⟩,
    ⟨6144, 5120, .ext2, false, []⟩]

/-- The last hit starts inside the second and stays, because of the hit of another type: without that
it is dropped. -/
theorem lostSettle_keeps_copy : ¬ LostSettlesTo lostChain (lostSettle lostChain)
    ∧ (lostSettle lostChain).map LostHit.start = [0, 5632, 6144]
    ∧ (lostSettle (lostChain.filter (·.type = .ext2))).map LostHit.start = [0] := by
  have hstarts : (lostSettle lostChain).map LostHit.start = [0, 5632, 6144] := by decide
  refine ⟨fun h => ?_, hstarts, by decide⟩
  have hlen := h.hits.length_eq
  rw [← List.length_map LostHit.start, hstarts] at hlen
  exact absurd hlen (by decide)

end FsRover
