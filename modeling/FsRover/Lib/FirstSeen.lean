import Mathlib.Tactic.Common
import Mathlib.Data.Nat.Notation

/-!
# First occurrences

A list is walked once, and an element is taken if its key was not seen before.

## Main definitions

* `FirstSeen.collect` : the keys with the index of their first element.
-/

namespace FirstSeen

variable {α κ : Type} [DecidableEq κ] (key : α → Option κ)

/-- The keys that are not in `seen`, each with the index of the first element that has it; the list
starts at index `i`. -/
def collect : List κ → ℕ → List α → List (κ × ℕ)
  | _, _, [] => []
  | seen, i, a :: as =>
    match key a with
    | none => collect seen (i + 1) as
    | some k => if k ∈ seen then collect seen (i + 1) as else (k, i) :: collect (k :: seen)
      (i + 1) as

variable {key}

theorem collect_cons_none {seen : List κ} {i : ℕ} {a : α} {as : List α} (h : key a = none) :
    collect key seen i (a :: as) = collect key seen (i + 1) as := by rw [collect, h]

theorem collect_cons_old {seen : List κ} {i : ℕ} {a : α} {as : List α} {k : κ} (h : key a = some k)
    (hseen : k ∈ seen) : collect key seen i (a :: as) = collect key seen (i + 1) as := by
  rw [collect, h]
  exact if_pos hseen

theorem collect_cons_new {seen : List κ} {i : ℕ} {a : α} {as : List α} {k : κ} (h : key a = some k)
    (hseen : k ∉ seen) :
    collect key seen i (a :: as) = (k, i) :: collect key (k :: seen) (i + 1) as := by
  rw [collect, h]
  exact if_neg hseen

/-- The element at `m` is the first one with the key `k`. -/
def IsFirst (key : α → Option κ) (as : List α) (k : κ) (m : ℕ) : Prop :=
  (∃ a, as[m]? = some a ∧ key a = some k) ∧ ∀ j < m, ∀ b, as[j]? = some b → key b ≠ some k

omit [DecidableEq κ] in
theorem isFirst_zero {a : α} {as : List α} {k : κ} : IsFirst key (a :: as) k 0
  ↔ key a = some k := by
  refine ⟨?_, fun h => ⟨⟨a, rfl, h⟩, fun j hj => absurd hj (Nat.not_lt_zero j)⟩⟩
  rintro ⟨⟨b, hb, hk⟩, -⟩
  rwa [Option.some.inj hb]

omit [DecidableEq κ] in
theorem isFirst_succ {a : α} {as : List α} {k : κ} {m : ℕ} :
    IsFirst key (a :: as) k (m + 1) ↔ key a ≠ some k ∧ IsFirst key as k m := by
  constructor
  · rintro ⟨⟨b, hb, hk⟩, hbefore⟩
    exact ⟨hbefore 0 (Nat.succ_pos m) a rfl, ⟨b, hb, hk⟩,
      fun j hj c hc => hbefore (j + 1) (Nat.succ_lt_succ hj) c hc⟩
  · rintro ⟨ha, ⟨b, hb, hk⟩, hbefore⟩
    refine ⟨⟨b, hb, hk⟩, fun j hj c hc => ?_⟩
    cases j with
    | zero => rwa [← Option.some.inj hc]
    | succ j => exact hbefore j (Nat.lt_of_succ_lt_succ hj) c hc

omit [DecidableEq κ] in
theorem IsFirst.unique {as : List α} {k : κ} {m n : ℕ} (hm : IsFirst key as k m)
    (hn : IsFirst key as k n) : m = n := by
  rcases Nat.lt_trichotomy m n with hlt | rfl | hgt
  · obtain ⟨a, ha, hk⟩ := hm.1
    exact absurd hk (hn.2 m hlt a ha)
  · rfl
  · obtain ⟨a, ha, hk⟩ := hn.1
    exact absurd hk (hm.2 n hgt a ha)

theorem exists_isFirst {as : List α} {k : κ} {n : ℕ} {a : α} (ha : as[n]? = some a)
    (hk : key a = some k) : ∃ m ≤ n, IsFirst key as k m := by
  induction as generalizing n with
  | nil => cases ha
  | cons b as ih =>
    by_cases hb : key b = some k
    · exact ⟨0, Nat.zero_le n, isFirst_zero.mpr hb⟩
    · cases n with
      | zero =>
        rw [Option.some.inj ha] at hb
        exact absurd hk hb
      | succ n =>
        obtain ⟨m, hle, hm⟩ := ih ha
        exact ⟨m + 1, Nat.succ_le_succ hle, isFirst_succ.mpr ⟨hb, hm⟩⟩

/-- What is collected: the keys that were not seen, with their first elements. -/
theorem mem_collect_iff {seen : List κ} {i : ℕ} {as : List α} {k : κ} {n : ℕ} :
    (k, n) ∈ collect key seen i as ↔ k ∉ seen ∧ ∃ m, n = i + m ∧ IsFirst key as k m := by
  induction as generalizing seen i with
  | nil =>
    refine ⟨(fun h => by cases h), ?_⟩
    rintro ⟨-, m, -, ⟨a, ha, -⟩, -⟩
    cases ha
  | cons a as ih =>
    -- the first element either has the key, or the rest decides
    have hsplit : (∃ m, n = i + m ∧ IsFirst key (a :: as) k m)
        ↔ (n = i ∧ key a = some k) ∨ key a ≠ some k ∧ ∃ m, n = i + 1 + m ∧ IsFirst key as k m := by
      constructor
      · rintro ⟨m, rfl, hm⟩
        cases m with
        | zero => exact .inl ⟨rfl, isFirst_zero.mp hm⟩
        | succ m =>
          obtain ⟨ha, hm⟩ := isFirst_succ.mp hm
          exact .inr ⟨ha, m, by omega, hm⟩
      · rintro (⟨rfl, ha⟩ | ⟨ha, m, rfl, hm⟩)
        · exact ⟨0, rfl, isFirst_zero.mpr ha⟩
        · exact ⟨m + 1, by omega, isFirst_succ.mpr ⟨ha, hm⟩⟩
    rw [hsplit]
    cases ha : key a with
    | none =>
      rw [collect_cons_none ha, ih]
      simp
    | some l =>
      by_cases hl : l ∈ seen
      · rw [collect_cons_old ha hl, ih]
        by_cases hkl : l = k
        · rw [← hkl]
          simp [hl]
        · simp [hkl]
      · rw [collect_cons_new ha hl, List.mem_cons, ih, Prod.mk.injEq, List.mem_cons, not_or,
          Option.some.injEq]
        by_cases hkl : k = l
        · rw [hkl]
          simp [hl]
        · simp [hkl, Ne.symm hkl]

/-- No key is collected twice. -/
theorem collect_nodup (seen : List κ) (i : ℕ) (as : List α) :
    ((collect key seen i as).map Prod.fst).Nodup := by
  induction as generalizing seen i with
  | nil => exact List.nodup_nil
  | cons a as ih =>
    cases ha : key a with
    | none =>
      rw [collect_cons_none ha]
      exact ih seen (i + 1)
    | some k =>
      by_cases hk : k ∈ seen
      · rw [collect_cons_old ha hk]
        exact ih seen (i + 1)
      · rw [collect_cons_new ha hk, List.map_cons, List.nodup_cons]
        refine ⟨fun hmem => ?_, ih (k :: seen) (i + 1)⟩
        obtain ⟨⟨l, n⟩, hln, rfl⟩ := List.mem_map.mp hmem
        exact (mem_collect_iff.mp hln).1 List.mem_cons_self

end FirstSeen
