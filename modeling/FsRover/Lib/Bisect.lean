import Mathlib.Data.Nat.Notation
import Mathlib.Tactic.Common

/-!
# Bisection

The half-open bisection for the place where a predicate on indices turns from true to false, and
for an index that lies on neither side.

## Main definitions

* `Bisect.search` : bisect `[lo, hi)`.
* `Bisect.find`, `Bisect.Ordered` : bisect for an index, and what makes that right.

## Main results

* `Bisect.search_le`, `Bisect.pred_search`, `Bisect.not_search` : what holds at the result for any
  predicate.
* `Bisect.pred_of_lt`, `Bisect.not_of_le` : what holds on both sides of the result when the
  predicate does not turn back.
* `Bisect.find_iff` : the only index on no side is found.
-/

namespace Bisect

/-- Bisect `[lo, hi)`; `fuel` bounds the number of halvings. -/
def searchIn (p : ℕ → Bool) : ℕ → ℕ → ℕ → ℕ
  | 0, lo, _ => lo
  | fuel + 1, lo, hi =>
    if lo < hi then
      if p (lo + (hi - lo) / 2) then searchIn p fuel (lo + (hi - lo) / 2 + 1) hi
      else searchIn p fuel lo (lo + (hi - lo) / 2)
    else lo

/-- Bisect `[0, n)`. -/
def search (p : ℕ → Bool) (n : ℕ) : ℕ := searchIn p n 0 n

variable {p : ℕ → Bool}

theorem searchIn_bounds : ∀ fuel {lo hi : ℕ}, lo ≤ hi →
    lo ≤ searchIn p fuel lo hi ∧ searchIn p fuel lo hi ≤ hi
  | 0, lo, hi, h => ⟨Nat.le_refl lo, h⟩
  | fuel + 1, lo, hi, h => by
    simp only [searchIn]
    split_ifs with hlt hp
    · have hrec := @searchIn_bounds fuel (lo + (hi - lo) / 2 + 1) hi (by omega)
      omega
    · have hrec := @searchIn_bounds fuel lo (lo + (hi - lo) / 2) (by omega)
      omega
    · exact ⟨Nat.le_refl lo, h⟩

/-- The element before the result, unless nothing was found, passes the test. -/
theorem pred_searchIn : ∀ fuel {lo hi : ℕ}, lo ≤ hi → lo < searchIn p fuel lo hi →
    p (searchIn p fuel lo hi - 1) = true
  | 0, lo, hi, _, h => absurd h (Nat.lt_irrefl lo)
  | fuel + 1, lo, hi, hle, h => by
    simp only [searchIn] at h ⊢
    split_ifs at h ⊢ with hlt hp
    · set mid := lo + (hi - lo) / 2 with hmid
      have hb := @searchIn_bounds p fuel (mid + 1) hi (by omega)
      rcases Nat.lt_or_ge (mid + 1) (searchIn p fuel (mid + 1) hi) with hgt | hge
      · exact pred_searchIn fuel (by omega) hgt
      · have heq : searchIn p fuel (mid + 1) hi = mid + 1 := by omega
        rwa [heq, Nat.add_sub_cancel]
    · exact pred_searchIn fuel (by omega) h
    · exact absurd h (Nat.lt_irrefl lo)

/-- The element at the result, unless it is the end, fails the test. -/
theorem not_searchIn : ∀ fuel {lo hi : ℕ}, lo ≤ hi → hi ≤ lo + fuel →
    searchIn p fuel lo hi < hi → p (searchIn p fuel lo hi) = false
  | 0, lo, hi, _, hfuel, h => by
    simp only [searchIn] at h
    omega
  | fuel + 1, lo, hi, hle, hfuel, h => by
    simp only [searchIn] at h ⊢
    split_ifs at h ⊢ with hlt hp
    · exact not_searchIn fuel (by omega) (by omega) h
    · set mid := lo + (hi - lo) / 2 with hmid
      have hb := @searchIn_bounds p fuel lo mid (by omega)
      rcases Nat.lt_or_ge (searchIn p fuel lo mid) mid with hlt' | hge
      · exact not_searchIn fuel (by omega) (by omega) hlt'
      · have heq : searchIn p fuel lo mid = mid := by omega
        rw [heq]
        exact Bool.eq_false_iff.mpr hp
    · exact absurd h hlt

variable {n : ℕ}

theorem search_le (p : ℕ → Bool) (n : ℕ) : search p n ≤ n :=
  (searchIn_bounds n (Nat.zero_le n)).2

theorem pred_search (h : 0 < search p n) : p (search p n - 1) = true :=
  pred_searchIn n (Nat.zero_le n) h

theorem not_search (h : search p n < n) : p (search p n) = false :=
  not_searchIn n (Nat.zero_le n) (by omega) h

/-- Before the result a predicate that does not turn back is true. -/
theorem pred_of_lt (hmono : ∀ i j, i ≤ j → j < n → p j = true → p i = true) {i : ℕ}
    (hi : i < search p n) : p i = true :=
  hmono i (search p n - 1) (by omega) (by have := search_le p n; omega) (pred_search (by omega))

/-- From the result on a predicate that does not turn back is false. -/
theorem not_of_le (hmono : ∀ i j, i ≤ j → j < n → p j = true → p i = true) {i : ℕ}
    (hi : search p n ≤ i) (hin : i < n) : p i = false := by
  have hnot := @not_search p n (by omega)
  refine Bool.eq_false_iff.mpr fun h => ?_
  rw [hmono _ i hi hin h] at hnot
  cases hnot

/-! ### Finding an index -/

/-- Bisect `[lo, hi)` for an index that is on no side: `.lt` sends the search below the index, `.gt`
above it. `fuel` bounds the number of halvings. -/
def findIn (side : ℕ → Ordering) : ℕ → ℕ → ℕ → Option ℕ
  | 0, _, _ => none
  | fuel + 1, lo, hi =>
    if lo < hi then
      match side (lo + (hi - lo) / 2) with
      | .lt => findIn side fuel lo (lo + (hi - lo) / 2)
      | .gt => findIn side fuel (lo + (hi - lo) / 2 + 1) hi
      | .eq => some (lo + (hi - lo) / 2)
    else none

/-- Find an index below `n` that is on no side. -/
def find (side : ℕ → Ordering) (n : ℕ) : Option ℕ := findIn side n 0 n

variable {side : ℕ → Ordering} {i : ℕ}

theorem findIn_some : ∀ fuel {lo hi : ℕ}, findIn side fuel lo hi = some i →
    i < hi ∧ side i = .eq
  | 0, lo, hi, h => by cases h
  | fuel + 1, lo, hi, h => by
    rw [findIn] at h
    split_ifs at h with hlt
    cases hside : side (lo + (hi - lo) / 2) with
    | lt =>
      rw [hside] at h
      obtain ⟨hi', heq⟩ := findIn_some fuel h
      exact ⟨by omega, heq⟩
    | gt =>
      rw [hside] at h
      exact findIn_some fuel h
    | eq =>
      rw [hside] at h
      cases h
      exact ⟨by omega, hside⟩

theorem find_some (h : find side n = some i) : i < n ∧ side i = .eq := findIn_some n h

/-- The sides are in order: what lies above an index below the wanted place is below it too. -/
structure Ordered (side : ℕ → Ordering) (n : ℕ) : Prop where
  lt : ∀ i j, i ≤ j → j < n → side i = .lt → side j = .lt
  gt : ∀ i j, i ≤ j → j < n → side j = .gt → side i = .gt

theorem findIn_isSome (hord : Ordered side n) (heq : side i = .eq) : ∀ fuel {lo hi : ℕ},
    lo ≤ i → i < hi → hi ≤ n → hi ≤ lo + fuel → (findIn side fuel lo hi).isSome
  | 0, lo, hi, hlow, hhigh, hn, hfuel => by omega
  | fuel + 1, lo, hi, hlow, hhigh, hn, hfuel => by
    rw [findIn, if_pos (by omega)]
    set mid := lo + (hi - lo) / 2 with hmid
    cases hside : side mid with
    | lt =>
      have hbelow : i < mid := by
        by_contra hge
        have hlt := hord.lt mid i (by omega) (by omega) hside
        rw [heq] at hlt
        cases hlt
      exact findIn_isSome hord heq fuel hlow hbelow (by omega) (by omega)
    | gt =>
      have habove : mid < i := by
        by_contra hge
        have hgt := hord.gt i mid (by omega) (by omega) hside
        rw [heq] at hgt
        cases hgt
      exact findIn_isSome hord heq fuel (by omega) hhigh hn (by omega)
    | eq => rfl

/-- The search finds the only index on no side. -/
theorem find_iff (hord : Ordered side n)
    (hone : ∀ i j, i < n → j < n → side i = .eq → side j = .eq → i = j) :
    find side n = some i ↔ i < n ∧ side i = .eq := by
  refine ⟨find_some, fun ⟨hi, heq⟩ => ?_⟩
  obtain ⟨j, hj⟩ := Option.isSome_iff_exists.mp
    (findIn_isSome hord heq n (Nat.zero_le i) hi (Nat.le_refl n) (by omega))
  obtain ⟨hjn, hjeq⟩ := find_some hj
  rw [hone i j hi hjn heq hjeq]
  exact hj

end Bisect
