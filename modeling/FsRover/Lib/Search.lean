import Mathlib.Data.List.Basic
import Mathlib.Data.Nat.Basic
import Mathlib.Order.Lattice
import Mathlib.Tactic.Common

/-!
# Binary search and insertion in sorted lists

The usual half-open binary search for the first element not below a bound, its specification on
strictly ascending lists, and the insertion at the place it finds.

## Main definitions

* `SortedSearch.lowerBound` : the index of the first element not below `x`.
* `SortedSearch.insertNew` : insertion at that index, unless the element is there.

## Main results

* `SortedSearch.lowerBound_spec` : elements before the index are below `x`, the others are not.
* `SortedSearch.lowerBound_least` : the element at the index is the least one not below `x`.
-/

namespace SortedSearch

variable {α : Type*} [LinearOrder α]

/-- The search in `[lo, hi)`; `n` bounds the number of halvings. -/
def lowerBoundIn (a : List α) (x : α) : ℕ → ℕ → ℕ → ℕ
  | 0, lo, _ => lo
  | n + 1, lo, hi =>
    if lo < hi then
      let mid := lo + (hi - lo) / 2
      match a[mid]? with
      | some y => if y < x then lowerBoundIn a x n (mid + 1) hi else lowerBoundIn a x n lo mid
      | none => lo
    else lo

/-- The index of the first element of `a` not below `x`. -/
def lowerBound (a : List α) (x : α) : ℕ := lowerBoundIn a x a.length 0 a.length

/-- Insert `x` at its place, unless it is there. -/
def insertNew (a : List α) (x : α) : List α :=
  if a[lowerBound a x]? = some x then a
  else a.take (lowerBound a x) ++ x :: a.drop (lowerBound a x)

/-- `i` splits `a` into the elements below `x` and the others. -/
def Splits (a : List α) (x : α) (i : ℕ) : Prop :=
  i ≤ a.length ∧ (∀ k y, a[k]? = some y → k < i → y < x) ∧ ∀ k y, a[k]? = some y → i ≤ k → x ≤ y

private theorem lt_of_getElem? {a : List α} (ha : a.Pairwise (· < ·)) {i j : ℕ} {x y : α}
    (hi : a[i]? = some x) (hj : a[j]? = some y) (hij : i < j) : x < y := by
  obtain ⟨hi', rfl⟩ := List.getElem?_eq_some_iff.mp hi
  obtain ⟨hj', rfl⟩ := List.getElem?_eq_some_iff.mp hj
  exact List.pairwise_iff_getElem.mp ha i j hi' hj' hij

private theorem le_of_getElem? {a : List α} (ha : a.Pairwise (· < ·)) {i j : ℕ} {x y : α}
    (hi : a[i]? = some x) (hj : a[j]? = some y) (hij : i ≤ j) : x ≤ y := by
  rcases Nat.lt_or_eq_of_le hij with h | rfl
  · exact (lt_of_getElem? ha hi hj h).le
  · exact (Option.some.inj (hi.symm.trans hj)).le

/-- The invariant of the search: the split point stays in `[lo, hi]`. -/
private theorem lowerBoundIn_spec {a : List α} (ha : a.Pairwise (· < ·)) (x : α) :
    ∀ n lo hi, lo ≤ hi → hi ≤ a.length → hi - lo ≤ n →
      (∀ k y, a[k]? = some y → k < lo → y < x) → (∀ k y, a[k]? = some y → hi ≤ k → x ≤ y) →
      Splits a x (lowerBoundIn a x n lo hi) := by
  intro n
  induction n with
  | zero =>
    intro lo hi hlo hhi hn hbelow habove
    obtain rfl : lo = hi := by omega
    exact ⟨hhi, hbelow, habove⟩
  | succ n ih =>
    intro lo hi hlo hhi hn hbelow habove
    unfold lowerBoundIn
    split_ifs with hlt
    · have hmid : lo + (hi - lo) / 2 < a.length := by omega
      simp only [List.getElem?_eq_getElem hmid]
      have hget := List.getElem?_eq_getElem hmid
      split_ifs with hy
      · refine ih _ _ (by omega) hhi (by omega) (fun k y hk hlt => ?_) habove
        exact lt_of_le_of_lt (le_of_getElem? ha hk hget (by omega)) hy
      · refine ih _ _ (by omega) (by omega) (by omega) hbelow fun k y hk hle => ?_
        exact (not_lt.mp hy).trans (le_of_getElem? ha hget hk hle)
    · obtain rfl : lo = hi := by omega
      exact ⟨hhi, hbelow, habove⟩

/-- On a strictly ascending list the search finds the split point. -/
theorem lowerBound_spec {a : List α} (ha : a.Pairwise (· < ·)) (x : α) :
    Splits a x (lowerBound a x) := by
  refine lowerBoundIn_spec ha x _ _ _ (Nat.zero_le _) le_rfl (by omega) ?_ fun k y hk hle => ?_
  · intro k y _ hk
    exact absurd hk (Nat.not_lt_zero k)
  · obtain ⟨hlt, -⟩ := List.getElem?_eq_some_iff.mp hk
    omega

/-- The element found is the least one not below `x`. -/
theorem lowerBound_least {a : List α} (ha : a.Pairwise (· < ·)) {x y : α} (hy : y ∈ a)
    (hxy : x ≤ y) : ∃ z, a[lowerBound a x]? = some z ∧ x ≤ z ∧ z ≤ y := by
  obtain ⟨hlen, hbelow, habove⟩ := lowerBound_spec ha x
  obtain ⟨k, hk⟩ := List.mem_iff_getElem?.mp hy
  have hle : lowerBound a x ≤ k := by
    by_contra hlt
    exact absurd (hbelow k y hk (Nat.lt_of_not_le hlt)) (not_lt.mpr hxy)
  obtain ⟨hklen, -⟩ := List.getElem?_eq_some_iff.mp hk
  have hget := List.getElem?_eq_getElem (lt_of_le_of_lt hle hklen)
  exact ⟨_, hget, habove _ _ hget le_rfl, le_of_getElem? ha hget hk hle⟩

theorem le_of_lowerBound {a : List α} (ha : a.Pairwise (· < ·)) {x z : α}
    (hz : a[lowerBound a x]? = some z) : x ≤ z :=
  (lowerBound_spec ha x).2.2 _ _ hz le_rfl

omit [LinearOrder α] in
theorem mem_of_getElem? {a : List α} {i : ℕ} {z : α} (hz : a[i]? = some z) : z ∈ a :=
  List.mem_iff_getElem?.mpr ⟨i, hz⟩

theorem getElem?_lowerBound_iff {a : List α} (ha : a.Pairwise (· < ·)) {x : α} :
    a[lowerBound a x]? = some x ↔ x ∈ a := by
  refine ⟨mem_of_getElem?, fun hx => ?_⟩
  obtain ⟨z, hz, hxz, hzx⟩ := lowerBound_least ha hx le_rfl
  rw [hz, le_antisymm hxz hzx]

/-- Insertion adds exactly the new element. -/
theorem mem_insertNew {a : List α} {x y : α} : y ∈ insertNew a x ↔ y = x ∨ y ∈ a := by
  unfold insertNew
  split_ifs with h
  · exact ⟨Or.inr, fun hy => hy.elim (fun e => e ▸ mem_of_getElem? h) id⟩
  · have happ := List.take_append_drop (lowerBound a x) a
    rw [List.mem_append, List.mem_cons]
    constructor
    · rintro (hy | rfl | hy)
      · exact Or.inr (happ ▸ List.mem_append_left _ hy)
      · exact Or.inl rfl
      · exact Or.inr (happ ▸ List.mem_append_right _ hy)
    · rintro (rfl | hy)
      · exact Or.inr (Or.inl rfl)
      · rw [← happ, List.mem_append] at hy
        exact hy.imp_right Or.inr

/-- Insertion keeps the list strictly ascending. -/
theorem pairwise_insertNew {a : List α} (ha : a.Pairwise (· < ·)) (x : α) :
    (insertNew a x).Pairwise (· < ·) := by
  unfold insertNew
  split_ifs with h
  · exact ha
  · obtain ⟨-, hbelow, habove⟩ := lowerBound_spec ha x
    have hx : x ∉ a := fun hx => h ((getElem?_lowerBound_iff ha).mpr hx)
    have htake : ∀ y ∈ a.take (lowerBound a x), y < x := by
      intro y hy
      obtain ⟨k, hk⟩ := List.mem_iff_getElem?.mp hy
      rw [List.getElem?_take] at hk
      split_ifs at hk with hlt
      exact hbelow k y hk hlt
    have hdrop : ∀ y ∈ a.drop (lowerBound a x), x < y := by
      intro y hy
      obtain ⟨k, hk⟩ := List.mem_iff_getElem?.mp hy
      rw [List.getElem?_drop] at hk
      exact lt_of_le_of_ne (habove _ y hk (Nat.le_add_right _ _))
        fun e => hx (e ▸ List.mem_of_mem_drop hy)
    have hsplit : (a.take (lowerBound a x) ++ a.drop (lowerBound a x)).Pairwise (· < ·) := by
      rwa [List.take_append_drop]
    obtain ⟨h₁, h₂, h₃⟩ := List.pairwise_append.mp hsplit
    refine List.pairwise_append.mpr ⟨h₁, List.pairwise_cons.mpr ⟨hdrop, h₂⟩, ?_⟩
    intro y hy z hz
    rcases List.mem_cons.mp hz with rfl | hz
    · exact htake y hy
    · exact h₃ y hy z hz

end SortedSearch
