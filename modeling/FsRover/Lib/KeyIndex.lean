import Mathlib.Data.Nat.Notation
import Mathlib.Tactic.Common

/-!
# The first key above a value

A node of a search tree is searched from the front for the first key above a value; the entry before
it is the one to go on with.
-/

namespace KeyIndex

/-- The first of `n` indices from `i` on whose key is above `b`, or the end. -/
def firstAbove (key : ℕ → ℕ) (b : ℕ) : ℕ → ℕ → ℕ
  | 0, i => i
  | n + 1, i => if b < key i then i else firstAbove key b n (i + 1)

variable {key : ℕ → ℕ} {b : ℕ}

theorem firstAbove_spec (key : ℕ → ℕ) (b : ℕ) : ∀ n i, i ≤ firstAbove key b n i
    ∧ firstAbove key b n i ≤ i + n
    ∧ (∀ j, i ≤ j → j < firstAbove key b n i → key j ≤ b)
    ∧ (firstAbove key b n i < i + n → b < key (firstAbove key b n i)) := by
  intro n
  induction n with
  | zero =>
    refine fun i => ⟨Nat.le_refl i, Nat.le_refl i, fun j hj hj' => ?_,
      fun h => absurd h (Nat.lt_irrefl i)⟩
    rw [firstAbove] at hj'
    omega
  | succ n ih =>
    intro i
    rw [firstAbove]
    by_cases hlt : b < key i
    · rw [if_pos hlt]
      exact ⟨Nat.le_refl i, by omega, fun j hj hj' => by omega, fun _ => hlt⟩
    · obtain ⟨hlow, hhigh, hkeys, hend⟩ := ih (i + 1)
      rw [if_neg hlt]
      refine ⟨by omega, by omega, fun j hj hj' => ?_, fun h => hend (by omega)⟩
      rcases Nat.lt_or_eq_of_le hj with hj | rfl
      · exact hkeys j hj hj'
      · omega

/-- The search stops at the first key above the value. -/
theorem firstAbove_eq {n r : ℕ} (hr : r ≤ n) (hbelow : ∀ j < r, key j ≤ b)
    (habove : r < n → b < key r) : firstAbove key b n 0 = r := by
  obtain ⟨-, hhigh, hkeys, hend⟩ := firstAbove_spec key b n 0
  rcases Nat.lt_trichotomy (firstAbove key b n 0) r with hlt | heq | hgt
  · have hle := hbelow _ hlt
    have hlt' := hend (by omega)
    omega
  · exact heq
  · have hle := hkeys r (Nat.zero_le r) hgt
    have hlt' := habove (by omega)
    omega

/-- Among ascending keys the search stops behind the last that is not above the value. -/
theorem firstAbove_succ {n i : ℕ} (hsorted : ∀ i j, i < j → j < n → key i < key j) (hi : i < n)
    (hlow : key i ≤ b) (hhigh : i + 1 < n → b < key (i + 1)) : firstAbove key b n 0 = i + 1 := by
  refine firstAbove_eq hi (fun j hj => ?_) hhigh
  rcases Nat.lt_succ_iff_lt_or_eq.mp hj with hj | rfl
  · have hlt := hsorted j i hj hi
    omega
  · exact hlow

end KeyIndex
