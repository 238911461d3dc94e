import Mathlib.Logic.Relation
import Mathlib.Order.WellFounded
import Mathlib.Data.Nat.Notation
import Mathlib.Tactic.Common

/-!
# Runs of a transition relation

The invariant rule for reachable states, and what a measure says about an infinite run.

## Main results

* `Runs.preserves` : a property that every step keeps holds in every state reached.
* `Runs.exists_constant_from` : a sequence in a well-founded order that never goes up is constant
  from some index on.
-/

namespace Runs

variable {σ : Type*} {step : σ → σ → Prop}

/-- The invariant rule. -/
theorem preserves {P : σ → Prop} (hstep : ∀ a b, step a b → P a → P b) {s s' : σ}
    (h : Relation.ReflTransGen step s s') (hs : P s) : P s' := by
  induction h with
  | refl => exact hs
  | tail _ hab ih => exact hstep _ _ hab ih

/-- A relation that every step implies, and that is reflexive and transitive, holds between the
ends of a run. -/
theorem relates {R : σ → σ → Prop} (hrefl : ∀ a, R a a) (htrans : ∀ a b c, R a b → R b c → R a c)
    (hstep : ∀ a b, step a b → R a b) {s s' : σ} (h : Relation.ReflTransGen step s s') :
    R s s' := by
  induction h with
  | refl => exact hrefl s
  | tail _ hab ih => exact htrans _ _ _ ih (hstep _ _ hab)

/-- A sequence that never goes up in a well-founded order is constant from some index on. -/
theorem exists_constant_from {α : Type*} [LinearOrder α] [WellFoundedLT α] (f : ℕ → α)
    (hf : ∀ i, f (i + 1) ≤ f i) : ∃ n, ∀ i, n ≤ i → f (i + 1) = f i := by
  obtain ⟨n, hn⟩ : ∃ n, ∀ i, f n ≤ f i := by
    obtain ⟨m, ⟨n, rfl⟩, hmin⟩ := wellFounded_lt.has_min (Set.range f) ⟨f 0, 0, rfl⟩
    exact ⟨n, fun i => not_lt.mp (hmin (f i) ⟨i, rfl⟩)⟩
  have hle : ∀ k, f (n + k) ≤ f n := by
    intro k
    induction k with
    | zero => exact le_rfl
    | succ k ih => exact (hf (n + k)).trans ih
  refine ⟨n, fun i hi => le_antisymm (hf i) ?_⟩
  obtain ⟨k, rfl⟩ := Nat.exists_eq_add_of_le hi
  exact (hle k).trans (hn _)

end Runs
