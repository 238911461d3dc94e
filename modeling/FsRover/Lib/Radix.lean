import Mathlib.Algebra.Order.Ring.Nat
import Mathlib.Data.List.Basic
import Mathlib.Data.Nat.Notation
import Mathlib.Tactic.Common

/-!
# Trees of equal fan-out

A tree of depth `d` in which every node has `p` children has `p ^ d` leaves; the digits of a number
lead to the leaf with this number. A node may speak for all the leaves below it.

## Main definitions

* `Radix.leaves` : the leaves from left to right.
* `Radix.find` : the descent by digits.

## Main results

* `Radix.getElem?_leaves` : the descent finds the leaf with the number.
-/

namespace Radix

variable {α β : Type*}

theorem getElem?_flatMap_range {f : ℕ → List β} {n p k : ℕ} (hn : ∀ i, (f i).length = n)
    (hk : k < p * n) : ((List.range p).flatMap f)[k]? = (f (k / n))[k % n]? := by
  have hpos : 0 < n := Nat.pos_of_ne_zero fun h => by simp [h] at hk
  induction p with
  | zero => omega
  | succ p ih =>
    have hlength : ((List.range p).flatMap f).length = p * n := by
      rw [List.length_flatMap, List.map_congr_left fun i _ => hn i]
      simp
    rw [List.range_succ, List.flatMap_append, List.flatMap_singleton]
    rcases Nat.lt_or_ge k (p * n) with hlt | hge
    · rw [List.getElem?_append_left (by rwa [hlength]), ih hlt]
    · rw [Nat.succ_mul] at hk
      have hdiv : k / n = p := Nat.div_eq_of_lt_le hge (by rw [Nat.succ_mul]; exact hk)
      have hmod : k % n = k - p * n := by
        have hsplit := Nat.div_add_mod k n
        rw [hdiv, Nat.mul_comm] at hsplit
        omega
      rw [List.getElem?_append_right (by rwa [hlength]), hlength, hdiv, hmod]

section Tree

variable (p : ℕ) (stop : α → Option β) (leaf : α → β) (child : α → ℕ → α)

/-- The leaves of the tree of depth `d` below `a`; a node that stops stands for all of its leaves. -/
def leaves : ℕ → α → List β
  | 0, a => [leaf a]
  | d + 1, a =>
    match stop a with
    | some b => List.replicate (p ^ (d + 1)) b
    | none => (List.range p).flatMap fun i => leaves d (child a i)

/-- The leaf with the number `k`, by the digits of `k`. -/
def find : ℕ → α → ℕ → β
  | 0, a, _ => leaf a
  | d + 1, a, k =>
    match stop a with
    | some b => b
    | none => find d (child a (k / p ^ d)) (k % p ^ d)

variable {p stop leaf child}

@[simp] theorem length_leaves {d : ℕ} {a : α} :
    (leaves p stop leaf child d a).length = p ^ d := by
  induction d generalizing a with
  | zero => rfl
  | succ d ih =>
    rw [leaves]
    cases stop a with
    | some b => exact List.length_replicate
    | none =>
      rw [List.length_flatMap, List.map_congr_left fun i _ => ih]
      simp [pow_succ, Nat.mul_comm]

theorem getElem?_leaves {d k : ℕ} {a : α} (hk : k < p ^ d) :
    (leaves p stop leaf child d a)[k]? = some (find p stop leaf child d a k) := by
  induction d generalizing a k with
  | zero =>
    obtain rfl : k = 0 := Nat.lt_one_iff.mp hk
    rfl
  | succ d ih =>
    rw [leaves, find]
    cases stop a with
    | some b => exact List.getElem?_replicate_of_lt hk
    | none =>
      rw [pow_succ, Nat.mul_comm] at hk
      have hpos : 0 < p ^ d := Nat.pos_of_ne_zero fun h => by simp [h] at hk
      rw [getElem?_flatMap_range (fun i => length_leaves) hk, ih (Nat.mod_lt _ hpos)]

end Tree

end Radix
