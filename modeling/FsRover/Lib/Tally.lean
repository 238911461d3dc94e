import Mathlib.Data.List.Dedup
import Mathlib.Data.List.Perm.Subperm
import Mathlib.Data.Nat.Notation
import Mathlib.Tactic.Common

/-!
# Tables of totals

A table has a row for each label, and a row holds the totals of the events of its label. An event
goes to the first row with its label, or to a new row at the end of the table.

## Main definitions

* `Tally.place`, `Tally.record` : the row of a label, and an event that is entered in it.
* `Tally.eventsOf`, `Tally.Exact` : what the table says of a history of events.

## Main results

* `Tally.Exact.record` : an event keeps the table exact.
* `Tally.Exact.length_eq` : the table has as many rows as there are labels.
-/

namespace Tally

variable {κ ρ ε : Type*} [DecidableEq κ] (label : ρ → κ)

/-- The index of the row for `k` and the table that has it, unless the table is full. -/
def place (limit : ℕ) (blank : κ → ρ) (k : κ) (rows : List ρ) : Option (ℕ × List ρ) :=
  match rows.findIdx? (fun r => label r = k) with
  | some i => some (i, rows)
  | none => if rows.length = limit then none else some (rows.length, rows ++ [blank k])

/-- Enter `change` in the row for `k`, if there is one or room for one. -/
def record (limit : ℕ) (blank : κ → ρ) (change : ρ → ρ) (k : κ) (rows : List ρ) : List ρ :=
  match place label limit blank k rows with
  | some (i, placed) => placed.modify i change
  | none => rows

/-- The events of `k`. -/
def eventsOf (k : κ) (events : List (κ × ε)) : List ε :=
  (events.filter fun e => e.1 = k).map Prod.snd

@[simp] theorem eventsOf_nil (k : κ) : eventsOf k ([] : List (κ × ε)) = [] := rfl

theorem eventsOf_concat_self (k : κ) (e : ε) (events : List (κ × ε)) :
    eventsOf k (events ++ [(k, e)]) = eventsOf k events ++ [e] := by
  simp [eventsOf]

theorem eventsOf_concat_of_ne {k k' : κ} (h : k' ≠ k) (e : ε) (events : List (κ × ε)) :
    eventsOf k (events ++ [(k', e)]) = eventsOf k events := by
  simp [eventsOf, h]

theorem eventsOf_eq_nil {k : κ} {events : List (κ × ε)} (h : k ∉ events.map Prod.fst) :
    eventsOf k events = [] := by
  rw [eventsOf, List.map_eq_nil_iff, List.filter_eq_nil_iff]
  intro e he
  rw [decide_eq_true_eq]
  rintro rfl
  exact h (List.mem_map_of_mem he)

/-- The table has one row for each label of the history, which holds the totals of its events. -/
structure Exact (total : κ → List ε → ρ) (events : List (κ × ε)) (rows : List ρ) : Prop where
  nodup : (rows.map label).Nodup
  totals : ∀ r ∈ rows, r = total (label r) (eventsOf (label r) events)
  mem_iff : ∀ k, k ∈ rows.map label ↔ k ∈ events.map Prod.fst

variable {label} {total : κ → List ε → ρ}

theorem exact_nil : Exact label total ([] : List (κ × ε)) [] where
  nodup := List.nodup_nil
  totals := by simp
  mem_iff := by simp

/-- The table has as many rows as the history has labels. -/
theorem Exact.length_eq {events : List (κ × ε)} {rows : List ρ} (h : Exact label total events rows) :
    rows.length = (events.map Prod.fst).dedup.length := by
  have hperm : (rows.map label).Perm (events.map Prod.fst).dedup :=
    (List.perm_ext_iff_of_nodup h.nodup (List.nodup_dedup _)).mpr fun k => by
      rw [List.mem_dedup, h.mem_iff]
  rw [← hperm.length_eq, List.length_map]

theorem length_dedup_le {l l' : List κ} (h : l ⊆ l') : l.dedup.length ≤ l'.dedup.length :=
  (List.subperm_of_subset (List.nodup_dedup l) fun _ hk =>
    List.mem_dedup.mpr (h (List.mem_dedup.mp hk))).length_le

/-- A table that does not have the label is not full if the history with the label has no more
labels than there is room for. -/
theorem Exact.length_lt {events : List (κ × ε)} {rows : List ρ} (h : Exact label total events rows)
    {k : κ} {e : ε} {limit : ℕ} (hk : k ∉ rows.map label)
    (hlimit : ((events ++ [(k, e)]).map Prod.fst).dedup.length ≤ limit) : rows.length < limit := by
  have hnew : k ∉ (events.map Prod.fst).dedup := by rwa [List.mem_dedup, ← h.mem_iff]
  have hsub : (k :: (events.map Prod.fst).dedup) ⊆ ((events ++ [(k, e)]).map Prod.fst).dedup := by
    intro j hj
    rw [List.mem_dedup, List.map_append, List.mem_append]
    rcases List.mem_cons.mp hj with rfl | hj
    · exact .inr (List.mem_singleton_self _)
    · exact .inl (List.mem_dedup.mp hj)
  have hle := (List.subperm_of_subset
    (List.nodup_cons.mpr ⟨hnew, List.nodup_dedup _⟩) hsub).length_le
  rw [List.length_cons, ← h.length_eq] at hle
  exact Nat.lt_of_lt_of_le (Nat.lt_of_succ_le hle) hlimit

/-- The rows that a change leaves alone keep their totals, and the changed one gets the event. -/
theorem Exact.modify {events : List (κ × ε)} {rows : List ρ} (h : Exact label total events rows)
    {i : ℕ} {r : ρ} {e : ε} {change : ρ → ρ} (hr : rows[i]? = some r)
    (hchange : change r = total (label r) (eventsOf (label r) events ++ [e]))
    (hlabel : label (change r) = label r) :
    Exact label total (events ++ [(label r, e)]) (rows.modify i change) := by
  have hmem : r ∈ rows := List.mem_of_getElem? hr
  have hmap : (rows.modify i change).map label = rows.map label := by
    refine List.ext_getElem? fun j => ?_
    rw [List.getElem?_map, List.getElem?_map, List.getElem?_modify]
    by_cases hj : i = j
    · subst hj
      simp [hr, hlabel]
    · simp [hj]
  refine ⟨hmap ▸ h.nodup, fun s hs => ?_, fun k => ?_⟩
  · obtain ⟨j, hj⟩ := List.mem_iff_getElem?.mp hs
    rw [List.getElem?_modify] at hj
    by_cases hij : i = j
    · subst hij
      obtain rfl : change r = s := by simpa [hr] using hj
      rw [hlabel, eventsOf_concat_self]
      exact hchange
    · have hs' : rows[j]? = some s := by simpa [hij] using hj
      -- another row has another label
      have hne : label r ≠ label s := by
        intro heq
        refine hij ((List.getElem?_inj ?_ h.nodup).mp ?_)
        · rw [List.length_map]
          exact (List.getElem?_eq_some_iff.mp hr).1
        · rw [List.getElem?_map, List.getElem?_map, hr, hs', Option.map_some, Option.map_some, heq]
      rw [eventsOf_concat_of_ne hne]
      exact h.totals s (List.mem_of_getElem? hs')
  · rw [hmap, h.mem_iff, List.map_append, List.mem_append]
    refine ⟨.inl, fun hk => hk.elim id fun hk => ?_⟩
    rw [List.map_singleton, List.mem_singleton] at hk
    exact hk ▸ (h.mem_iff _).mp (List.mem_map_of_mem hmem)

theorem Exact.concat {events : List (κ × ε)} {rows : List ρ} (h : Exact label total events rows)
    {r : ρ} {e : ε} (hnew : label r ∉ rows.map label) (hr : r = total (label r) [e]) :
    Exact label total (events ++ [(label r, e)]) (rows ++ [r]) := by
  have hold : label r ∉ events.map Prod.fst := fun hk => hnew ((h.mem_iff _).mpr hk)
  refine ⟨?_, fun s hs => ?_, fun k => ?_⟩
  · rw [List.map_append, List.map_singleton, List.nodup_append]
    refine ⟨h.nodup, List.nodup_singleton _, fun k hk j hj heq => hnew ?_⟩
    rw [List.mem_singleton] at hj
    rwa [← hj, ← heq]
  · rcases List.mem_append.mp hs with hs | hs
    · have hne : label r ≠ label s := fun heq => hnew (heq ▸ List.mem_map_of_mem hs)
      rw [eventsOf_concat_of_ne hne]
      exact h.totals s hs
    · obtain rfl := List.mem_singleton.mp hs
      rw [eventsOf_concat_self, eventsOf_eq_nil hold]
      exact hr
  · rw [List.map_append, List.map_append, List.mem_append, List.mem_append, h.mem_iff]
    simp

theorem modify_concat (change : ρ → ρ) (rows : List ρ) (r : ρ) :
    (rows ++ [r]).modify rows.length change = rows ++ [change r] := by
  induction rows with
  | nil => rfl
  | cons s rows ih => simpa using ih

/-- An event keeps the table exact: a blank row has the label, a change keeps it and adds the event
to the totals, and there is room for the labels. -/
theorem Exact.record {events : List (κ × ε)} {rows : List ρ} (h : Exact label total events rows)
    {limit : ℕ} {blank : κ → ρ} {change : ρ → ρ} {k : κ} {e : ε}
    (hblank : blank k = total k []) (hlabel : ∀ es, label (total k es) = k)
    (hchange : change (total k (eventsOf k events)) = total k (eventsOf k events ++ [e]))
    (hlimit : ((events ++ [(k, e)]).map Prod.fst).dedup.length ≤ limit) :
    Exact label total (events ++ [(k, e)]) (Tally.record label limit blank change k rows) := by
  rw [Tally.record, place]
  cases hfind : rows.findIdx? (fun r => label r = k) with
  | some i =>
    obtain ⟨hi, hk, -⟩ := List.findIdx?_eq_some_iff_getElem.mp hfind
    rw [decide_eq_true_eq] at hk
    have htotals : rows[i] = total k (eventsOf k events) := by
      simpa only [hk] using h.totals rows[i] (List.getElem_mem hi)
    have hchanged : change rows[i] = total k (eventsOf k events ++ [e]) := by
      rw [htotals, hchange]
    have hmodify : Exact label total (events ++ [(label rows[i], e)]) (rows.modify i change) :=
      h.modify (List.getElem?_eq_getElem hi) (by rw [hk, hchanged]) (by rw [hchanged, hlabel, hk])
    rwa [hk] at hmodify
  | none =>
    have hnew : k ∉ rows.map label := by
      intro hmem
      obtain ⟨r, hr, hk⟩ := List.mem_map.mp hmem
      have hnone := List.findIdx?_eq_none_iff.mp hfind r hr
      rw [decide_eq_false_iff_not] at hnone
      exact hnone hk
    have hroom : rows.length ≠ limit := Nat.ne_of_lt (h.length_lt hnew hlimit)
    have hnil : eventsOf k events = [] := eventsOf_eq_nil fun hk => hnew ((h.mem_iff k).mpr hk)
    rw [hnil, List.nil_append] at hchange
    have hrow : change (blank k) = total k [e] := by rw [hblank, hchange]
    have hconcat := h.concat (r := change (blank k)) (e := e)
      (by rwa [hrow, hlabel]) (by rw [hrow, hlabel])
    rw [hrow, hlabel] at hconcat
    simp only [if_neg hroom]
    rwa [modify_concat, hrow]

end Tally
