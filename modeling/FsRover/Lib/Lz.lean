import Mathlib.Algebra.Order.BigOperators.Group.List
import Mathlib.Algebra.Order.Ring.Nat
import Mathlib.Data.Nat.Notation
import Mathlib.Tactic.Common

/-!
# Sequences of literals and matches

What an LZ77 stream says: literal bytes, and matches that repeat bytes already produced. A limit on
the output ends the expansion; a match that reaches before the output, or that is longer than what is
left of it, makes it fail.

## Main definitions

* `Lz.Item`, `Lz.expand` : the items and their expansion up to a limit.
* `Lz.Reached` : the expansion comes to an item of a kind.

## Main results

* `Lz.length_expand` : the size of what is produced.
* `Lz.expand_map_iff` : items with some lengths made smaller expand alike when no such item is
  reached that still fits.
-/

namespace Lz

/-- A literal byte, or the `len` bytes from `off` bytes back. -/
inductive Item where
  | literal (b : UInt8)
  | copy (off len : ℕ)
  deriving DecidableEq, Repr

/-- Append `len` bytes, each the one `off` bytes before the end. -/
def copyBack (off : ℕ) : ℕ → List UInt8 → List UInt8
  | 0, out => out
  | len + 1, out => copyBack off len (out ++ [out.getD (out.length - off) 0])

def Item.size : Item → ℕ
  | .literal _ => 1
  | .copy _ len => len

/-- The item reads what is there and fits into what is left. -/
def Item.Fits (limit : ℕ) (out : List UInt8) : Item → Prop
  | .literal _ => True
  | .copy off len => off ≤ out.length ∧ len ≤ limit - out.length

instance (limit : ℕ) (out : List UInt8) : DecidablePred (Item.Fits limit out)
  | .literal _ => inferInstanceAs (Decidable True)
  | .copy _ _ => inferInstanceAs (Decidable (_ ∧ _))

def Item.apply (out : List UInt8) : Item → List UInt8
  | .literal b => out ++ [b]
  | .copy off len => copyBack off len out

/-- How many items were expanded, whether the end was a good one, and the output. -/
@[ext]
structure Outcome where
  items : ℕ
  ok : Bool
  out : List UInt8
  deriving DecidableEq, Repr

/-- The outcome after one more item. -/
def Outcome.succ (r : Outcome) : Outcome := { r with items := r.items + 1 }

variable (limit : ℕ)

/-- Expand the items behind `out`; `good` tells how the items end. -/
def expand (good : Bool) : List Item → List UInt8 → Outcome
  | [], out => ⟨0, decide (limit ≤ out.length) || good, out⟩
  | t :: ts, out =>
    if limit ≤ out.length then ⟨0, true, out⟩
    else if t.Fits limit out then (expand good ts (t.apply out)).succ
    else ⟨0, false, out⟩

/-- The expansion comes to an item with `P`. -/
def Reached (P : List UInt8 → Item → Prop) : List Item → List UInt8 → Prop
  | [], _ => False
  | t :: ts, out =>
    out.length < limit ∧ (P out t ∨ t.Fits limit out ∧ Reached P ts (t.apply out))

variable {limit} {good : Bool}

@[simp] theorem length_copyBack (off : ℕ) : ∀ len (out : List UInt8),
    (copyBack off len out).length = out.length + len
  | 0, _ => rfl
  | len + 1, out => by
    rw [copyBack, length_copyBack, List.length_append, List.length_singleton]
    omega

theorem length_apply (out : List UInt8) (t : Item) : (t.apply out).length = out.length + t.size := by
  cases t with
  | literal b => simp [Item.apply, Item.size]
  | copy off len => exact length_copyBack off len out

/-- The output grows by the sizes of the items that are expanded. -/
theorem length_expand : ∀ (ts : List Item) (out : List UInt8),
    (expand limit good ts out).out.length
      = out.length + ((ts.take (expand limit good ts out).items).map Item.size).sum
  | [], out => rfl
  | t :: ts, out => by
    rw [expand]
    split_ifs with hfull hfits
    · rfl
    · have hrec := length_expand ts (t.apply out)
      simp only [Outcome.succ, List.take_succ_cons, List.map_cons, List.sum_cons]
      rw [hrec, length_apply]
      omega
    · rfl

/-- Where the items only get smaller, more output before them is more output behind them. -/
theorem expand_ne {f : Item → Item} (hsize : ∀ t, (f t).size ≤ t.size) {ts : List Item}
    {out out' : List UInt8} (hlt : out'.length < out.length) :
    expand limit good (ts.map f) out' ≠ expand limit good ts out := by
  intro h
  have hlen := @length_expand limit good (ts.map f) out'
  have hlen' := @length_expand limit good ts out
  rw [h, hlen', ← List.map_take, List.map_map] at hlen
  have hle : ((ts.take (expand limit good ts out).items).map (Item.size ∘ f)).sum
      ≤ ((ts.take (expand limit good ts out).items).map Item.size).sum :=
    List.sum_le_sum fun t _ => hsize t
  omega

/-- Items that are made smaller expand in the same way, down to the place where the expansion stops,
if and only if none is reached that is changed and fits. -/
theorem expand_map_iff {f : Item → Item} {P : List UInt8 → Item → Prop}
    (hsize : ∀ t, (f t).size ≤ t.size) (hsame : ∀ t out, f t = t → ¬ P out t)
    (hless : ∀ t, f t ≠ t → (f t).size < t.size)
    (hfits : ∀ t out, f t ≠ t → out.length < limit → (P out t ↔ (f t).Fits limit out))
    (hgrows : ∀ t out, t.Fits limit out → (f t).Fits limit out) :
    ∀ (ts : List Item) (out : List UInt8),
      expand limit good (ts.map f) out = expand limit good ts out ↔ ¬ Reached limit P ts out
  | [], out => iff_of_true rfl id
  | t :: ts, out => by
    rw [List.map_cons, expand, expand, Reached]
    by_cases hfull : limit ≤ out.length
    · rw [if_pos hfull, if_pos hfull]
      exact iff_of_true rfl fun h => by omega
    · rw [if_neg hfull, if_neg hfull]
      have hroom : out.length < limit := by omega
      by_cases hf : f t = t
      · -- an item that stays
        rw [hf]
        by_cases ht : t.Fits limit out
        · rw [if_pos ht, if_pos ht]
          have hrec := expand_map_iff hsize hsame hless hfits hgrows ts (t.apply out)
          have hsucc : ∀ r r' : Outcome, r.succ = r'.succ ↔ r = r' := fun r r' => by
            cases r
            cases r'
            simp [Outcome.succ]
          rw [hsucc, hrec]
          simp [hsame t out hf, ht, hroom]
        · rw [if_neg ht, if_neg ht]
          exact iff_of_true rfl fun h => h.2.elim (hsame t out hf) fun h => ht h.1
      · by_cases hft : (f t).Fits limit out
        · -- the smaller item is expanded
          have hP := (hfits t out hf hroom).mpr hft
          refine iff_of_false (fun heq => ?_) (not_not.mpr ⟨hroom, .inl hP⟩)
          rw [if_pos hft] at heq
          split_ifs at heq with ht
          · have hlt : ((f t).apply out).length < (t.apply out).length := by
              have := hless t hf
              rw [length_apply, length_apply]
              omega
            simp only [Outcome.succ, Outcome.mk.injEq] at heq
            have hsame' : expand limit good (ts.map f) ((f t).apply out)
                = expand limit good ts (t.apply out) :=
              Outcome.ext (Nat.succ.inj heq.1) heq.2.1 heq.2.2
            exact expand_ne hsize hlt hsame'
          · have hitems := congrArg Outcome.items heq
            exact absurd hitems (Nat.succ_ne_zero _)
        · have ht : ¬ t.Fits limit out := fun ht => hft (hgrows t out ht)
          rw [if_neg hft, if_neg ht]
          exact iff_of_true rfl fun h => h.2.elim
            (fun h => hft ((hfits t out hf hroom).mp h)) fun h => ht h.1

end Lz
