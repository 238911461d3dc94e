import Mathlib.Tactic.Common

/-!
# Guards

A function that refuses its arguments one check after the other runs to the end exactly when every
check passes.

## Main definitions

* `Guards.refuseIf` : fail with an error under a condition.
* `Guards.require` : fail with an error where there is no value.
* `Guards.OkLe` : whatever one computation returns, the other returns too.

## Main results

* `Guards.OkLe.bind` : replacing a step by one that succeeds at least as often.
-/

namespace Guards

variable {ε : Type*} {α β : Type}

/-- Fail with `e` if `p` holds. -/
def refuseIf (p : Prop) [Decidable p] (e : ε) : Except ε Unit := if p then .error e else .ok ()

/-- The value, or fail with `e` if there is none. -/
def require (o : Option α) (e : ε) : Except ε α :=
  match o with
  | none => .error e
  | some a => .ok a

/-- A sequence succeeds when its steps succeed in turn. -/
theorem bind_eq_ok_iff {x : Except ε α} {f : α → Except ε β} {b : β} :
    (x >>= f) = .ok b ↔ ∃ a, x = .ok a ∧ f a = .ok b := by
  cases x with
  | error e =>
    refine ⟨(fun h => by cases h), ?_⟩
    rintro ⟨a, ha, -⟩
    cases ha
  | ok a =>
    refine ⟨fun h => ⟨a, rfl, h⟩, ?_⟩
    rintro ⟨a', ha, h⟩
    cases ha
    exact h

/-- It fails where its first step does, or where the rest does. -/
theorem bind_eq_error_iff {x : Except ε α} {f : α → Except ε β} {e : ε} :
    (x >>= f) = .error e ↔ x = .error e ∨ ∃ a, x = .ok a ∧ f a = .error e := by
  cases x with
  | error e' =>
    refine ⟨fun h => .inl (by cases h; rfl), ?_⟩
    rintro (h | ⟨a, h, -⟩)
    · cases h
      rfl
    · cases h
  | ok a =>
    refine ⟨fun h => .inr ⟨a, rfl, h⟩, ?_⟩
    rintro (h | ⟨a', ha, h⟩)
    · cases h
    · cases ha
      exact h

theorem eq_ok_get {x : Except ε α} (h : x.toOption.isSome = true) : x = .ok (x.toOption.get h) := by
  cases x with
  | error e => cases h
  | ok a => rfl

theorem refuseIf_eq_ok_iff {p : Prop} [Decidable p] {e : ε} {u : Unit} :
    refuseIf p e = .ok u ↔ ¬ p := by
  by_cases hp : p <;> simp [refuseIf, hp]

theorem refuseIf_eq_error_iff {p : Prop} [Decidable p] {e e' : ε} :
    refuseIf p e = .error e' ↔ p ∧ e = e' := by
  by_cases hp : p <;> simp [refuseIf, hp]

theorem require_eq_error_iff {o : Option α} {e e' : ε} :
    require o e = .error e' ↔ o = none ∧ e = e' := by
  cases o <;> simp [require]

theorem require_eq_ok_iff {o : Option α} {e : ε} {a : α} : require o e = .ok a ↔ o = some a := by
  cases o <;> simp [require]

/-- A check passes, then the rest succeeds. -/
theorem refuseIf_bind_eq_ok_iff {p : Prop} [Decidable p] {e : ε} {f : Unit → Except ε β} {b : β} :
    (refuseIf p e >>= f) = .ok b ↔ ¬ p ∧ f () = .ok b := by
  unfold refuseIf
  split_ifs with hp
  · exact ⟨(fun h => by cases h), fun h => absurd hp h.1⟩
  · exact ⟨fun h => ⟨hp, h⟩, fun h => h.2⟩

/-- The value is there, and the rest succeeds with it. -/
theorem require_bind_eq_ok_iff {o : Option α} {e : ε} {f : α → Except ε β} {b : β} :
    (require o e >>= f) = .ok b ↔ ∃ a, o = some a ∧ f a = .ok b := by
  simp only [bind_eq_ok_iff, require_eq_ok_iff]

/-- What every round of a loop over the numbers from `a` on keeps holds at its end. -/
theorem foldlM_range'_inv {P : ℕ → α → Prop} {f : α → ℕ → Except ε α}
    (hstep : ∀ i s s', P i s → f s i = .ok s' → P (i + 1) s') {a n : ℕ} {s s' : α} (hs : P a s)
    (h : (List.range' a n).foldlM f s = .ok s') : P (a + n) s' := by
  induction n generalizing a s with
  | zero => exact Except.ok.inj h ▸ hs
  | succ n ih =>
    rw [List.range'_succ, List.foldlM_cons] at h
    obtain ⟨s₁, h₁, h⟩ := bind_eq_ok_iff.mp h
    rw [show a + (n + 1) = a + 1 + n by omega]
    exact ih (hstep a s s₁ hs h₁) h

/-- Where `x` succeeds, `y` succeeds with the same value. -/
def OkLe (x y : Except ε α) : Prop := ∀ a, x = .ok a → y = .ok a

theorem OkLe.refl (x : Except ε α) : OkLe x x := fun _ h => h

theorem OkLe.bind {x y : Except ε α} {f g : α → Except ε β} (h : OkLe x y)
    (hfg : ∀ a, OkLe (f a) (g a)) : OkLe (x >>= f) (y >>= g) := by
  intro b hb
  obtain ⟨a, ha, hb⟩ := bind_eq_ok_iff.mp hb
  exact bind_eq_ok_iff.mpr ⟨a, h a ha, hfg a b hb⟩

end Guards
