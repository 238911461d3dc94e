import Mathlib.Data.Finset.Card
import Mathlib.Data.Nat.Notation
import Mathlib.Tactic.Common

/-!
# Chains and cycles

A partial function that goes from an element to the next one, to the end, or fails. A tortoise and a
hare find out whether a chain ends.

## Main definitions

* `Cycle.EndsAfter` : the end is reached after so many hops.
* `Cycle.nth` : the element so many hops ahead.
* `Cycle.validate` : the tortoise and the hare, with a bound on their rounds.

## Main results

* `Cycle.EndsAfter.lt_card` : a chain that ends meets no element twice.
* `Cycle.validate_eq_ok_iff` : as many rounds as there are elements are enough.
-/

namespace Cycle

variable {α ε : Type*} (hop : α → Except ε (Option α))

/-- From `a` the end is reached after `n` hops to further elements. -/
def EndsAfter : ℕ → α → Prop
  | 0, a => hop a = .ok none
  | n + 1, a => ∃ b, hop a = .ok (some b) ∧ EndsAfter n b

/-- The element `n` hops ahead of `a`. -/
def nth : ℕ → α → Option α
  | 0, a => some a
  | n + 1, a =>
    match hop a with
    | .ok (some b) => nth n b
    | _ => none

/-- The tortoise makes one hop a round, the hare two; they must not meet. -/
def validate [DecidableEq α] (cyclic tooLong : ε) : ℕ → α → α → Except ε Unit
  | 0, _, _ => .error tooLong
  | rounds + 1, slow, fast =>
    match hop slow with
    | .error e => .error e
    | .ok none => .ok ()
    | .ok (some slow) =>
      match hop fast with
      | .error e => .error e
      | .ok none => .ok ()
      | .ok (some fast) =>
        match hop fast with
        | .error e => .error e
        | .ok none => .ok ()
        | .ok (some fast) =>
          if slow = fast then .error cyclic else validate cyclic tooLong rounds slow fast

variable {hop} {a b : α} {m n : ℕ}

theorem EndsAfter.unique (hm : EndsAfter hop m a) (hn : EndsAfter hop n a) : m = n := by
  induction m generalizing n a with
  | zero =>
    cases n with
    | zero => rfl
    | succ n =>
      obtain ⟨b, hb, -⟩ := hn
      rw [EndsAfter, hb] at hm
      cases hm
  | succ m ih =>
    obtain ⟨b, hb, hm⟩ := hm
    cases n with
    | zero =>
      rw [EndsAfter, hb] at hn
      cases hn
    | succ n =>
      obtain ⟨b', hb', hn⟩ := hn
      rw [hb] at hb'
      obtain rfl := Option.some.inj (Except.ok.inj hb')
      rw [ih hm hn]

/-- Every shorter way to the end begins at an element of the chain. -/
theorem EndsAfter.exists_shorter {S : Finset α} (hS : ∀ a b, hop a = .ok (some b) → b ∈ S) (ha : a ∈ S)
    (h : EndsAfter hop n a) : ∀ k ≤ n, ∃ b ∈ S, EndsAfter hop k b := by
  induction n generalizing a with
  | zero =>
    intro k hk
    obtain rfl := Nat.le_zero.mp hk
    exact ⟨a, ha, h⟩
  | succ n ih =>
    intro k hk
    obtain ⟨b, hb, hrest⟩ := h
    rcases Nat.lt_or_ge k (n + 1) with hlt | hge
    · exact ih (hS a b hb) hrest k (by omega)
    · obtain rfl : k = n + 1 := by omega
      exact ⟨a, ha, b, hb, hrest⟩

/-- A chain that ends has fewer hops than there are elements. -/
theorem EndsAfter.lt_card {S : Finset α} (hS : ∀ a b, hop a = .ok (some b) → b ∈ S) (ha : a ∈ S)
    (h : EndsAfter hop n a) : n < S.card := by
  have hshorter := h.exists_shorter hS ha
  have : Nonempty α := ⟨a⟩
  choose! f hf using hshorter
  have hinj : Set.InjOn f (Finset.range (n + 1)) := by
    intro i hi j hj hij
    have hi := (hf i (by simpa [Nat.lt_succ_iff] using hi)).2
    have hj := (hf j (by simpa [Nat.lt_succ_iff] using hj)).2
    rw [hij] at hi
    exact hi.unique hj
  have hcard := Finset.card_le_card_of_injOn f
    (fun i hi => (hf i (by simpa [Nat.lt_succ_iff] using hi)).1) hinj
  rwa [Finset.card_range] at hcard

/-! ### The tortoise and the hare -/

variable [DecidableEq α] {cyclic tooLong : ε} {slow fast : α} {rounds : ℕ}

theorem validate_ends (h : validate hop cyclic tooLong rounds slow fast = .ok ()) :
    (∃ n, EndsAfter hop n slow) ∨ ∃ n, EndsAfter hop n fast := by
  induction rounds generalizing slow fast with
  | zero => cases h
  | succ rounds ih =>
    rw [validate] at h
    cases hslow : hop slow with
    | error e =>
      rw [hslow] at h
      cases h
    | ok slow' =>
    cases slow' with
    | none => exact .inl ⟨0, hslow⟩
    | some slow' =>
    rw [hslow] at h
    dsimp only at h
    cases hfast : hop fast with
    | error e =>
      rw [hfast] at h
      cases h
    | ok fast₁ =>
    cases fast₁ with
    | none => exact .inr ⟨0, hfast⟩
    | some fast₁ =>
    rw [hfast] at h
    dsimp only at h
    cases hfast₁ : hop fast₁ with
    | error e =>
      rw [hfast₁] at h
      cases h
    | ok fast₂ =>
    cases fast₂ with
    | none => exact .inr ⟨1, fast₁, hfast, hfast₁⟩
    | some fast₂ =>
    rw [hfast₁] at h
    dsimp only at h
    split_ifs at h
    obtain ⟨n, hn⟩ | ⟨n, hn⟩ := ih h
    · exact .inl ⟨n + 1, slow', hslow, hn⟩
    · exact .inr ⟨n + 2, fast₁, hfast, fast₂, hfast₁, hn⟩

/-- The hare is ahead of the tortoise, so it gets to the end first, and they do not meet. -/
theorem validate_of_endsAfter (hslow : EndsAfter hop m slow) (hfast : EndsAfter hop n fast)
    (hle : n ≤ m) (hrounds : n < 2 * rounds) :
    validate hop cyclic tooLong rounds slow fast = .ok () := by
  induction rounds generalizing slow fast m n with
  | zero => omega
  | succ rounds ih =>
    rw [validate]
    cases m with
    | zero => rw [show hop slow = .ok none from hslow]
    | succ m =>
    obtain ⟨slow', hslow', hslow⟩ := hslow
    rw [hslow']
    dsimp only
    cases n with
    | zero => rw [show hop fast = .ok none from hfast]
    | succ n =>
    obtain ⟨fast₁, hfast₁, hfast⟩ := hfast
    rw [hfast₁]
    dsimp only
    cases n with
    | zero => rw [show hop fast₁ = .ok none from hfast]
    | succ n =>
    obtain ⟨fast₂, hfast₂, hfast⟩ := hfast
    rw [hfast₂]
    dsimp only
    rw [if_neg]
    · exact ih hslow hfast (by omega) (by omega)
    · rintro rfl
      have heq := hslow.unique hfast
      omega

/-- Among finitely many elements the tortoise and the hare find out whether the chain ends. -/
theorem validate_eq_ok_iff {S : Finset α} (hS : ∀ a b, hop a = .ok (some b) → b ∈ S) (ha : a ∈ S)
    (hrounds : S.card ≤ rounds) :
    validate hop cyclic tooLong rounds a a = .ok () ↔ ∃ n, EndsAfter hop n a := by
  refine ⟨fun h => ?_, ?_⟩
  · obtain h | h := validate_ends h <;> exact h
  · rintro ⟨n, hn⟩
    have hlt := hn.lt_card hS ha
    exact validate_of_endsAfter hn hn (Nat.le_refl n) (by omega)

omit [DecidableEq α]

/-! ### Elements ahead -/

theorem nth_add (hop : α → Except ε (Option α)) (m n : ℕ) (a : α) :
    nth hop (m + n) a = (nth hop m a).bind (nth hop n) := by
  induction m generalizing a with
  | zero => rw [Nat.zero_add, nth, Option.bind_some]
  | succ m ih =>
    rw [Nat.succ_add, nth, nth]
    cases hop a with
    | error e => rfl
    | ok b =>
      cases b with
      | none => rfl
      | some b => exact ih b

theorem nth_succ_eq_some {c : α} :
    nth hop (n + 1) a = some c ↔ ∃ b, hop a = .ok (some b) ∧ nth hop n b = some c := by
  rw [nth]
  constructor
  · intro h
    cases hhop : hop a with
    | error e =>
      rw [hhop] at h
      cases h
    | ok b =>
      rw [hhop] at h
      cases b with
      | none => cases h
      | some b => exact ⟨b, rfl, h⟩
  · rintro ⟨b, hb, h⟩
    rw [hb]
    exact h

theorem nth_mem {S : Set α} (hS : ∀ a b, hop a = .ok (some b) → b ∈ S) (ha : a ∈ S)
    (h : nth hop n a = some b) : b ∈ S := by
  induction n generalizing a with
  | zero => exact Option.some.inj h ▸ ha
  | succ n ih =>
    obtain ⟨c, hc, hrest⟩ := nth_succ_eq_some.mp h
    exact ih (hS a c hc) hrest

end Cycle
