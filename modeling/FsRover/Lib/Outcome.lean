import Mathlib.Data.Nat.Notation
import Mathlib.Tactic.Common

/-!
# Outcomes of bounded computations

A computation with a bound on the depth of its calls returns a value, fails with an error, leaves
the memory it may use, or goes deeper than the bound.

## Main definitions

* `Outcome` : the four outcomes, a monad.
* `Outcome.Safe` : the memory is not left, and a value has a property.
* `Outcome.Returns` : the bound is enough.
* `Outcome.Ends` : a value with a property, or an error.
* `Outcome.forRange` : a loop over an index.

## Main results

* `Outcome.Safe.bind`, `Outcome.Returns.bind`, `Outcome.Ends.bind` : the rules of composition.
-/

/-- What a computation comes to. -/
inductive Outcome (ε α : Type)
  | done (a : α)
  | failed (e : ε)
  | fault
  | deep
  deriving DecidableEq

namespace Outcome

variable {ε α β : Type}

def bind : Outcome ε α → (α → Outcome ε β) → Outcome ε β
  | done a, f => f a
  | failed e, _ => failed e
  | fault, _ => fault
  | deep, _ => deep

instance : Monad (Outcome ε) where
  pure := done
  bind := bind

@[simp] theorem done_bind (a : α) (f : α → Outcome ε β) : (done a >>= f) = f a := rfl

@[simp] theorem failed_bind (e : ε) (f : α → Outcome ε β) : (failed e >>= f) = failed e := rfl

@[simp] theorem deep_bind (f : α → Outcome ε β) : ((deep : Outcome ε α) >>= f) = deep := rfl

/-- The result of a step that may fail. -/
def ofExcept : Except ε α → Outcome ε α
  | .ok a => done a
  | .error e => failed e

@[simp] theorem ofExcept_ok (a : α) : (ofExcept (.ok a) : Outcome ε α) = done a := rfl

/-- The value at an index that has to be inside `p`. -/
def inside (p : Prop) [Decidable p] (a : α) : Outcome ε α := if p then done a else fault

theorem inside_pos {p : Prop} [Decidable p] {a : α} (hp : p) :
    (inside p a : Outcome ε α) = done a :=
  if_pos hp

/-- The memory is not left, and a value has the property `Q`. -/
def Safe (x : Outcome ε α) (Q : α → Prop) : Prop :=
  match x with
  | done a => Q a
  | fault => False
  | _ => True

/-- The bound on the depth is enough. -/
def Returns (x : Outcome ε α) : Prop := x ≠ deep

variable {x : Outcome ε α} {f : α → Outcome ε β} {P Q : α → Prop} {R : β → Prop}

theorem Safe.bind (h : x.Safe Q) (hf : ∀ a, Q a → (f a).Safe R) : (x >>= f).Safe R := by
  cases x with
  | done a => exact hf a h
  | failed e => trivial
  | fault => exact h
  | deep => trivial

theorem Safe.mono (h : x.Safe P) (hPQ : ∀ a, P a → Q a) : x.Safe Q := by
  cases x with
  | done a => exact hPQ a h
  | failed e => trivial
  | fault => exact h
  | deep => trivial

theorem Safe.ne_fault (h : x.Safe Q) : x ≠ fault := by
  rintro rfl
  exact h

theorem safe_inside {p : Prop} [Decidable p] {a : α} (hp : p) (ha : Q a) :
    (inside p a : Outcome ε α).Safe Q := by
  rw [inside_pos hp]
  exact ha

theorem safe_ofExcept {r : Except ε α} (h : ∀ a, r = .ok a → Q a) : (ofExcept r).Safe Q := by
  cases r with
  | ok a => exact h a rfl
  | error e => trivial

/-- The computation returns a value with the property `Q` or fails with an error. -/
def Ends (x : Outcome ε α) (Q : α → Prop) : Prop :=
  match x with
  | done a => Q a
  | failed _ => True
  | fault => False
  | deep => False

theorem Ends.bind (h : x.Ends Q) (hf : ∀ a, Q a → (f a).Ends R) : (x >>= f).Ends R := by
  cases x with
  | done a => exact hf a h
  | failed e => trivial
  | fault => exact h
  | deep => exact h

theorem Ends.mono (h : x.Ends P) (hPQ : ∀ a, P a → Q a) : x.Ends Q := by
  cases x with
  | done a => exact hPQ a h
  | failed e => trivial
  | fault => exact h
  | deep => exact h

theorem ends_inside {p : Prop} [Decidable p] {a : α} (hp : p) (ha : Q a) :
    (inside p a : Outcome ε α).Ends Q := by
  rw [inside_pos hp]
  exact ha

theorem Ends.cases (h : x.Ends Q) : (∃ a, x = done a ∧ Q a) ∨ ∃ e, x = failed e := by
  cases x with
  | done a => exact .inl ⟨a, rfl, h⟩
  | failed e => exact .inr ⟨e, rfl⟩
  | fault => exact absurd h id
  | deep => exact absurd h id

theorem Returns.bind (h : x.Returns) (hf : ∀ a, x = done a → (f a).Returns) :
    (x >>= f).Returns := by
  cases x with
  | done a => exact hf a rfl
  | failed e => exact fun h => by cases h
  | fault => exact fun h => by cases h
  | deep => exact absurd rfl h

theorem returns_done (a : α) : (done a : Outcome ε α).Returns := fun h => by cases h

theorem returns_failed (e : ε) : (failed e : Outcome ε α).Returns := fun h => by cases h

theorem returns_inside {p : Prop} [Decidable p] {a : α} :
    (inside p a : Outcome ε α).Returns := by
  rw [inside]
  split_ifs <;> exact fun h => by cases h

theorem returns_ofExcept (r : Except ε α) : (ofExcept r).Returns := by
  cases r <;> exact fun h => by cases h

/-! ### Loops -/

@[simp] theorem fault_bind (f : α → Outcome ε β) : ((fault : Outcome ε α) >>= f) = fault := rfl

/-- Run `f` at the `n` indices from `i` on. -/
def forRange (f : ℕ → α → Outcome ε α) : ℕ → ℕ → α → Outcome ε α
  | _, 0, a => done a
  | i, n + 1, a => f i a >>= forRange f (i + 1) n

theorem forRange_add {f : ℕ → α → Outcome ε α} {i m n : ℕ} {a : α} :
    forRange f i (m + n) a = forRange f i m a >>= forRange f (i + m) n := by
  induction m generalizing i a with
  | zero => rw [Nat.zero_add, Nat.add_zero, forRange, done_bind]
  | succ m ih =>
    rw [Nat.add_right_comm, forRange, forRange]
    cases f i a with
    | done b =>
      rw [done_bind, done_bind, ih, Nat.add_right_comm, Nat.add_assoc]
    | failed e => rfl
    | fault => rfl
    | deep => rfl

variable {f : ℕ → α → Outcome ε α} {I : ℕ → α → Prop} {i n : ℕ} {a : α}

/-- A loop whose rounds keep an invariant does not leave the memory. -/
theorem Safe.forRange (hf : ∀ k a, i ≤ k → k < i + n → I k a → (f k a).Safe (I (k + 1))) (ha : I i a) :
    (forRange f i n a).Safe (I (i + n)) := by
  induction n generalizing i a with
  | zero => exact ha
  | succ n ih =>
    refine Safe.bind (hf i a (Nat.le_refl i) (by omega) ha) fun b hb => ?_
    rw [show i + (n + 1) = i + 1 + n by omega]
    exact ih (fun k a hk hlt => hf k a (by omega) (by omega)) hb

/-- A loop whose rounds return, and keep an invariant, returns. -/
theorem forRange_done {J : α → Prop}
    (hf : ∀ k a, i ≤ k → k < i + n → J a → ∃ b, f k a = done b ∧ J b) (ha : J a) :
    ∃ b, forRange f i n a = done b ∧ J b := by
  induction n generalizing i a with
  | zero => exact ⟨a, rfl, ha⟩
  | succ n ih =>
    obtain ⟨b, hb, hJ⟩ := hf i a (Nat.le_refl i) (by omega) ha
    rw [forRange, hb, done_bind]
    exact ih (fun k a hk hlt => hf k a (by omega) (by omega)) hJ

/-- A loop that returns up to a round which leaves the memory leaves it. -/
theorem forRange_fault {J : α → Prop} {m : ℕ} (hm : m < n)
    (hf : ∀ k a, i ≤ k → k < i + m → J a → ∃ b, f k a = done b ∧ J b)
    (hfault : ∀ a, J a → f (i + m) a = fault) (ha : J a) : forRange f i n a = fault := by
  obtain ⟨k, rfl⟩ : ∃ k, n = m + (k + 1) := ⟨n - m - 1, by omega⟩
  obtain ⟨b, hb, hJ⟩ := forRange_done hf ha
  rw [forRange_add, hb, done_bind, forRange, hfault b hJ, fault_bind]

end Outcome
