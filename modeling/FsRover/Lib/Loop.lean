import Mathlib.Data.Nat.Notation
import Mathlib.Order.WellFounded
import Mathlib.Tactic.Common

/-!
# Loops with an exit

A `while` loop is the iteration of a body that either goes on with a new state or leaves the loop
with a result. The iteration takes fuel; a result does not depend on how much there is, and a
measure that every round lowers provides enough.

## Main definitions

* `FuelLoop.run` : the iteration of a body.

## Main results

* `FuelLoop.run_mono`, `FuelLoop.run_unique` : more fuel gives the same result.
* `FuelLoop.run_invariant` : a property that every round keeps holds at the exit.
* `FuelLoop.exists_run` : a loop whose rounds go down a well-founded relation has a result.
-/

namespace FuelLoop

variable {σ ρ : Type*} {body : σ → σ ⊕ ρ}

/-- Iterate `body` from `s` until it leaves the loop, at most `fuel` times. -/
def run (body : σ → σ ⊕ ρ) : ℕ → σ → Option ρ
  | 0, _ => none
  | fuel + 1, s =>
    match body s with
    | .inl s' => run body fuel s'
    | .inr r => some r

theorem run_succ_inl {fuel : ℕ} {s s' : σ} (h : body s = .inl s') :
    run body (fuel + 1) s = run body fuel s' := by
  rw [run, h]

theorem run_succ_inr {fuel : ℕ} {s : σ} {r : ρ} (h : body s = .inr r) :
    run body (fuel + 1) s = some r := by
  rw [run, h]

/-- A result stays the result when there is more fuel. -/
theorem run_mono {fuel fuel' : ℕ} {s : σ} {r : ρ} (hle : fuel ≤ fuel')
    (h : run body fuel s = some r) : run body fuel' s = some r := by
  induction fuel generalizing fuel' s with
  | zero => simp [run] at h
  | succ fuel ih =>
    obtain ⟨fuel', rfl⟩ : ∃ k, fuel' = k + 1 := ⟨fuel' - 1, by omega⟩
    cases hb : body s with
    | inl s' =>
      rw [run_succ_inl hb] at h ⊢
      exact ih (by omega) h
    | inr r' =>
      rw [run_succ_inr hb] at h ⊢
      exact h

theorem run_unique {fuel fuel' : ℕ} {s : σ} {r r' : ρ} (h : run body fuel s = some r)
    (h' : run body fuel' s = some r') : r = r' := by
  have hm := run_mono (Nat.le_max_left fuel fuel') h
  have hm' := run_mono (Nat.le_max_right fuel fuel') h'
  exact Option.some.inj (hm.symm.trans hm')

/-- A property of the state that every round keeps gives its consequence at the exit. -/
theorem run_invariant {P : σ → Prop} {Q : ρ → Prop}
    (hstep : ∀ s s', P s → body s = .inl s' → P s') (hexit : ∀ s r, P s → body s = .inr r → Q r)
    {fuel : ℕ} {s : σ} {r : ρ} (hs : P s) (h : run body fuel s = some r) : Q r := by
  induction fuel generalizing s with
  | zero => simp [run] at h
  | succ fuel ih =>
    cases hb : body s with
    | inl s' =>
      rw [run_succ_inl hb] at h
      exact ih (hstep s s' hs hb) h
    | inr r' =>
      rw [run_succ_inr hb] at h
      exact Option.some.inj h ▸ hexit s r' hs hb

/-- A loop whose rounds go down a well-founded relation, under an invariant, has a result. -/
theorem exists_run {P : σ → Prop} {lt : σ → σ → Prop} (hwf : WellFounded lt)
    (hstep : ∀ s s', P s → body s = .inl s' → P s' ∧ lt s' s) {s : σ} (hs : P s) :
    ∃ fuel r, run body fuel s = some r := by
  induction s using hwf.induction with
  | _ s ih =>
    cases hb : body s with
    | inl s' =>
      obtain ⟨hs', hlt⟩ := hstep s s' hs hb
      obtain ⟨fuel, r, hr⟩ := ih s' hlt hs'
      exact ⟨fuel + 1, r, (run_succ_inl hb).trans hr⟩
    | inr r => exact ⟨1, r, run_succ_inr hb⟩

end FuelLoop
