import Mathlib.Data.List.Induction
import Mathlib.Data.Nat.Notation
import Mathlib.Tactic.Common

/-!
# Marking pairs

Two nested loops over a list compare every two places and mark both where the comparison holds.
When marking changes no comparison, a place ends up marked exactly when it compares with another.

## Main definitions

* `Pairs.markPair` : compare two places.
* `Pairs.markPairs` : the loops.

## Main results

* `Pairs.getElem?_markPairs` : which places are marked.
-/

namespace Pairs

variable {α : Type*} (touch : α → α → Bool) (mark : α → α)

/-- Mark the places `i` and `j` if they touch. -/
def markPair (xs : List α) (i j : ℕ) : List α :=
  match xs[i]?, xs[j]? with
  | some a, some b => if touch a b then (xs.modify i mark).modify j mark else xs
  | _, _ => xs

/-- Compare each of the first `n` places with the later ones. -/
def markPairs (n : ℕ) (xs : List α) : List α :=
  (List.range n).foldl
    (fun xs i => (List.range' (i + 1) (n - (i + 1))).foldl
      (fun xs j => markPair touch mark xs i j) xs)
    xs

/-- The pairs the loops compare, in order. -/
def pairs (n : ℕ) : List (ℕ × ℕ) :=
  (List.range n).flatMap fun i => (List.range' (i + 1) (n - (i + 1))).map fun j => (i, j)

theorem mem_pairs {n i j : ℕ} : (i, j) ∈ pairs n ↔ i < j ∧ j < n := by
  unfold pairs
  simp only [List.mem_flatMap, List.mem_range, List.mem_map, List.mem_range'_1, Prod.mk.injEq]
  constructor
  · rintro ⟨i', hi', j', hj', rfl, rfl⟩
    omega
  · intro h
    exact ⟨i, by omega, j, by omega, rfl, rfl⟩

theorem markPairs_eq_foldl (n : ℕ) (xs : List α) :
    markPairs touch mark n xs
      = (pairs n).foldl (fun xs p => markPair touch mark xs p.1 p.2) xs := by
  unfold markPairs pairs
  rw [List.foldl_flatMap]
  simp only [List.foldl_map]

/-- The elements at `i` and `j` touch. -/
def TouchAt (xs : List α) (i j : ℕ) : Prop :=
  ∃ a b, xs[i]? = some a ∧ xs[j]? = some b ∧ touch a b = true

/-- Place `k` is in a pair of `ps` that touches. -/
def Touched (xs : List α) (ps : List (ℕ × ℕ)) (k : ℕ) : Prop :=
  ∃ p ∈ ps, (p.1 = k ∨ p.2 = k) ∧ TouchAt touch xs p.1 p.2

theorem Touched.concat_iff {xs : List α} {ps : List (ℕ × ℕ)} {p : ℕ × ℕ} {k : ℕ} :
    Touched touch xs (ps ++ [p]) k ↔
      Touched touch xs ps k ∨ (p.1 = k ∨ p.2 = k) ∧ TouchAt touch xs p.1 p.2 := by
  unfold Touched
  simp only [List.mem_append, List.mem_singleton, or_and_right, exists_or, exists_eq_left]

section

variable (hleft : ∀ a b, touch (mark a) b = touch a b)
  (hright : ∀ a b, touch a (mark b) = touch a b)
  (hmark : ∀ a, mark (mark a) = mark a)

include hmark in
open Classical in
theorem getElem?_markPair (xs : List α) (i j k : ℕ) :
    (markPair touch mark xs i j)[k]?
      = xs[k]?.map fun a => if (i = k ∨ j = k) ∧ TouchAt touch xs i j then mark a else a := by
  have hnone : ¬ TouchAt touch xs i j →
      xs[k]? = xs[k]?.map fun a => if (i = k ∨ j
        = k) ∧ TouchAt touch xs i j then mark a else a := by
    intro h
    simp [h]
  unfold markPair
  cases ha : xs[i]? with
  | none => exact hnone fun ⟨a, b, h, _⟩ => by rw [ha] at h; cases h
  | some a =>
    cases hb : xs[j]? with
    | none => exact hnone fun ⟨a, b, _, h, _⟩ => by rw [hb] at h; cases h
    | some b =>
      dsimp only
      by_cases htouch : touch a b = true
      · have hat : TouchAt touch xs i j := ⟨a, b, ha, hb, htouch⟩
        rw [if_pos htouch]
        simp only [hat, and_true, List.getElem?_modify]
        cases xs[k]? with
        | none => rfl
        | some x =>
          by_cases hi : i = k <;> by_cases hj : j = k <;> simp [hi, hj, hmark]
      · rw [if_neg htouch]
        refine hnone ?_
        rintro ⟨a', b', ha', hb', h⟩
        rw [ha] at ha'
        rw [hb] at hb'
        cases ha'
        cases hb'
        exact htouch h

include hleft hright in
open Classical in
theorem touchAt_congr {xs ys : List α} {P : ℕ → Prop}
    (hys : ∀ k, ys[k]? = xs[k]?.map fun a => if P k then mark a else a) (i j : ℕ) :
    TouchAt touch ys i j ↔ TouchAt touch xs i j := by
  have hkeep : ∀ a b, touch (if P i then mark a else a)
    (if P j then mark b else b) = touch a b := by
    intro a b
    split_ifs <;> simp [hleft, hright]
  unfold TouchAt
  rw [hys i, hys j]
  cases xs[i]? <;> cases xs[j]? <;> simp [hkeep]

include hleft hright hmark

open Classical in
/-- The marked places are those of the pairs compared so far. -/
theorem getElem?_foldl_markPair (xs : List α) (ps : List (ℕ × ℕ)) (k : ℕ) :
    (ps.foldl (fun xs p => markPair touch mark xs p.1 p.2) xs)[k]?
      = xs[k]?.map fun a => if Touched touch xs ps k then mark a else a := by
  induction ps using List.reverseRecOn generalizing k with
  | nil => simp [Touched]
  | append_singleton ps p ih =>
    rw [List.foldl_append, List.foldl_cons, List.foldl_nil, getElem?_markPair touch mark hmark]
    have hat := touchAt_congr touch mark hleft hright ih p.1 p.2
    rw [ih k]
    cases xs[k]? with
    | none => rfl
    | some a =>
      simp only [Option.map_some, Option.some.injEq, hat, Touched.concat_iff]
      by_cases hold : Touched touch xs ps k <;>
        by_cases hnew : (p.1 = k ∨ p.2 = k) ∧ TouchAt touch xs p.1 p.2 <;>
        simp [hold, hnew, hmark]

open Classical in
/-- A place is marked exactly when it touches another. -/
theorem getElem?_markPairs (hsymm : ∀ a b, touch a b = touch b a) (xs : List α) (k : ℕ) :
    (markPairs touch mark xs.length xs)[k]?
      = xs[k]?.map fun a => if ∃ l ≠ k, TouchAt touch xs k l then mark a else a := by
  have hiff : Touched touch xs (pairs xs.length) k ↔ ∃ l ≠ k, TouchAt touch xs k l := by
    constructor
    · rintro ⟨⟨i, j⟩, hp, rfl | rfl, a, b, ha, hb, hab⟩
      · have hlt := (mem_pairs.mp hp).1
        exact ⟨j, by dsimp only; omega, a, b, ha, hb, hab⟩
      · have hlt := (mem_pairs.mp hp).1
        exact ⟨i, by dsimp only; omega, b, a, hb, ha, hsymm a b ▸ hab⟩
    · rintro ⟨l, hne, a, b, ha, hb, hab⟩
      have hk := (List.getElem?_eq_some_iff.mp ha).1
      have hl := (List.getElem?_eq_some_iff.mp hb).1
      rcases Nat.lt_or_gt_of_ne hne with hlt | hlt
      · exact ⟨(l, k), mem_pairs.mpr ⟨hlt, hk⟩, Or.inr rfl, b, a, hb, ha, hsymm a b ▸ hab⟩
      · exact ⟨(k, l), mem_pairs.mpr ⟨hlt, hl⟩, Or.inl rfl, a, b, ha, hb, hab⟩
  rw [markPairs_eq_foldl, getElem?_foldl_markPair touch mark hleft hright hmark]
  simp only [hiff]

end

end Pairs
