import Mathlib.Data.Nat.Notation
import Mathlib.Tactic.Common

/-!
# Ranges of bytes

A range is an offset and a length, taken as unbounded numbers.

## Main definitions

* `Ranges.Meet` : two ranges have a byte in common.

## Main results

* `Ranges.meet_iff` : ranges that are not empty meet when each starts before the other ends.
-/

namespace Ranges

/-- The ranges of `m` bytes at `a` and of `n` bytes at `b` have a byte in common. -/
def Meet (a m b n : ℕ) : Prop := ∃ x, (a ≤ x ∧ x < a + m) ∧ b ≤ x ∧ x < b + n

theorem meet_iff {a m b n : ℕ} (hm : 0 < m) (hn : 0 < n) :
    Meet a m b n ↔ a < b + n ∧ b < a + m := by
  constructor
  · rintro ⟨x, ⟨hax, hxa⟩, hbx, hxb⟩
    omega
  · intro h
    exact ⟨max a b, ⟨Nat.le_max_left _ _, by omega⟩, Nat.le_max_right _ _, by omega⟩

end Ranges
