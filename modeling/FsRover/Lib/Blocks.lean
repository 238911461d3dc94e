import Mathlib.Data.List.Basic
import Mathlib.Data.Nat.Notation
import Mathlib.Tactic.Common

/-!
# Concatenations of blocks

A sequence of blocks of one length, of which only the last may be shorter.

## Main definitions

* `Blocks.concat` : the blocks one after the other.

## Main results

* `Blocks.getElem?_concat` : a place in the concatenation is a place in one of the blocks.
-/

namespace Blocks

variable {α : Type*}

/-- The first `n` blocks one after the other. -/
def concat (block : ℕ → List α) : ℕ → List α
  | 0 => []
  | n + 1 => concat block n ++ block n

variable {block : ℕ → List α} {m : ℕ}

theorem length_concat {n : ℕ} (h : ∀ k < n, (block k).length = m) :
    (concat block n).length = n * m := by
  induction n with
  | zero => rw [concat, List.length_nil, Nat.zero_mul]
  | succ n ih =>
    rw [concat, List.length_append, ih fun k hk => h k (Nat.lt_succ_of_lt hk),
      h n (Nat.lt_succ_self n), Nat.succ_mul]

theorem getElem?_concat {n k p : ℕ} (h : ∀ k < n - 1, (block k).length = m) (hk : k < n)
    (hp : p < (block k).length) : (concat block n)[k * m + p]? = (block k)[p]? := by
  induction n with
  | zero => exact absurd hk (Nat.not_lt_zero k)
  | succ n ih =>
    have hlen : (concat block n).length = n * m := length_concat fun k hk => h k hk
    rw [concat]
    rcases Nat.lt_succ_iff_lt_or_eq.mp hk with hlt | rfl
    · have hin : k * m + p < (concat block n).length := by
        have hblock := h k hlt
        have hmul := Nat.mul_le_mul_right m (Nat.succ_le_of_lt hlt)
        rw [Nat.succ_mul] at hmul
        omega
      rw [List.getElem?_append_left hin]
      exact ih (fun k hk => h k (by omega)) hlt
    · rw [List.getElem?_append_right (by omega), hlen, Nat.add_sub_cancel_left]

end Blocks
