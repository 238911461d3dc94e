import Mathlib.Data.List.Basic
import Mathlib.Data.Nat.Notation
import Mathlib.Tactic.Common

/-!
# Bottom-up merge sort

A pass merges neighbouring runs of one width into runs of twice the width. Passes of doubled width
sort a list, and keep its elements.

## Main definitions

* `MergeRuns.pass` : merge the runs of a list in pairs.
* `MergeRuns.sort` : passes of width 1, 2, 4, … while the width is below the length.

## Main results

* `MergeRuns.filter_sort` : elements that compare as equal keep their order.
-/

namespace MergeRuns

variable {α : Type*} (le : α → α → Bool)

/-- Merge neighbouring runs of `width` elements; `fuel` bounds the number of pairs. -/
def pass (width : ℕ) : ℕ → List α → List α
  | 0, l => l
  | fuel + 1, l =>
    if l.isEmpty then []
    else (l.take width).merge ((l.drop width).take width) le
      ++ pass width fuel (l.drop (2 * width))

/-- Passes of doubled width from `width` on; `fuel` bounds their number. -/
def sortFrom : ℕ → ℕ → List α → List α
  | 0, _, l => l
  | fuel + 1, width, l =>
    if width < l.length then sortFrom fuel (2 * width) (pass le width l.length l) else l

/-- Sort from runs of one element. -/
def sort (l : List α) : List α := sortFrom le l.length 1 l

/-- Every run of `width` elements is sorted. -/
def RunsSorted (width : ℕ) (l : List α) : Prop :=
  ∀ i, ((l.drop (i * width)).take width).Pairwise (fun a b => le a b)

variable {le}

theorem pass_perm (width : ℕ) : ∀ fuel (l : List α), (pass le width fuel l).Perm l
  | 0, l => List.Perm.refl l
  | fuel + 1, l => by
    simp only [pass]
    split_ifs with hl
    · rw [List.isEmpty_iff.mp hl]
    · have hrest : l.drop (2 * width) = (l.drop width).drop width := by
        rw [List.drop_drop, Nat.two_mul]
      calc (l.take width).merge ((l.drop width).take width) le
              ++ pass le width fuel (l.drop (2 * width))
          |>.Perm ((l.take width ++ (l.drop width).take width) ++ l.drop (2 * width)) :=
            List.Perm.append (List.merge_perm_append le) (pass_perm width fuel _)
        _ = l := by
            rw [hrest, List.append_assoc, List.take_append_drop, List.take_append_drop]

/-- A pass over sorted runs leaves sorted runs of twice the width. -/
theorem RunsSorted.pass (htrans : ∀ a b c, le a b → le b c → le a c)
    (htotal : ∀ a b, le a b || le b a) {width : ℕ} (hwidth : 0 < width) :
    ∀ {fuel : ℕ} {l : List α}, RunsSorted le width l → l.length ≤ fuel →
      RunsSorted le (2 * width) (pass le width fuel l)
  | 0, l, _, hlen => by
    obtain rfl := List.length_eq_zero_iff.mp (Nat.le_zero.mp hlen)
    intro i
    simp [MergeRuns.pass]
  | fuel + 1, l, h, hlen => by
    simp only [MergeRuns.pass]
    split_ifs with hl
    · intro i
      simp
    · have hpos : 0 < l.length := List.length_pos_of_ne_nil fun e => hl (by simp [e])
      have hmerge : ((l.take width).merge ((l.drop width).take width) le).Pairwise
          (fun a b => le a b) := by
        refine List.pairwise_merge htrans htotal _ _ ?_ ?_
        · simpa using h 0
        · simpa using h 1
      have hrest : RunsSorted le (2 * width) (MergeRuns.pass le width fuel
        (l.drop (2 * width))) := by
        refine RunsSorted.pass htrans htotal hwidth (fun i => ?_) (by rw [List.length_drop]; omega)
        have hi := h (i + 2)
        rwa [Nat.add_mul, Nat.add_comm, ← List.drop_drop] at hi
      have hmlen : ((l.take width).merge ((l.drop width).take width) le).length
          = min (2 * width) l.length := by
        rw [List.length_merge, List.length_take, List.length_take, List.length_drop]
        omega
      have hplen := (@pass_perm _ le width fuel (l.drop (2 * width))).length_eq
      rw [List.length_drop] at hplen
      intro i
      rcases Nat.lt_or_ge l.length (2 * width) with hshort | hlong
      · -- the last pair: what is left behind it is empty
        have hnil : MergeRuns.pass le width fuel (l.drop (2 * width)) = [] :=
          List.length_eq_zero_iff.mp (by omega)
        rw [hnil, List.append_nil]
        exact (hmerge.drop (i := i * (2 * width))).take
      · cases i with
        | zero =>
          rw [Nat.zero_mul, List.drop_zero, List.take_append_of_le_length (by omega)]
          exact hmerge.take
        | succ i =>
          rw [Nat.add_mul, Nat.one_mul, Nat.add_comm, ← List.drop_drop,
            List.drop_left' (hmlen.trans (Nat.min_eq_left hlong))]
          exact hrest i

theorem sortFrom_perm : ∀ fuel width (l : List α), (sortFrom le fuel width l).Perm l
  | 0, _, l => List.Perm.refl l
  | fuel + 1, width, l => by
    simp only [sortFrom]
    split_ifs with h
    · exact (sortFrom_perm fuel (2 * width) _).trans (pass_perm width _ l)
    · exact List.Perm.refl l

theorem sort_perm (l : List α) : (sort le l).Perm l := sortFrom_perm _ _ _

theorem RunsSorted.pairwise {width : ℕ} {l : List α} (h : RunsSorted le width l)
    (hlen : l.length ≤ width) : l.Pairwise (fun a b => le a b) := by
  have h₀ := h 0
  rwa [Nat.zero_mul, List.drop_zero, List.take_of_length_le hlen] at h₀

theorem pairwise_sortFrom (htrans : ∀ a b c, le a b → le b c → le a c)
    (htotal : ∀ a b, le a b || le b a) :
    ∀ {fuel width : ℕ} {l : List α}, 0 < width → RunsSorted le width l →
      l.length ≤ fuel + width → (sortFrom le fuel width l).Pairwise (fun a b => le a b)
  | 0, width, l, _, h, hlen => h.pairwise (by omega)
  | fuel + 1, width, l, hwidth, h, hlen => by
    simp only [sortFrom]
    split_ifs with hlt
    · refine pairwise_sortFrom htrans htotal (by omega)
        (h.pass htrans htotal hwidth (Nat.le_refl _)) ?_
      rw [(pass_perm width _ l).length_eq]
      omega
    · exact h.pairwise (by omega)

theorem pairwise_sort (htrans : ∀ a b c, le a b → le b c → le a c)
    (htotal : ∀ a b, le a b || le b a) (l : List α) :
    (sort le l).Pairwise (fun a b => le a b) := by
  refine pairwise_sortFrom htrans htotal Nat.one_pos (fun i => ?_) (by omega)
  rcases (l.drop (i * 1)) with _ | ⟨a, as⟩ <;> simp

/-! ### Stability -/

section Stable

variable {p : α → Bool}

/-- Merging puts elements that compare as equal in the order of the lists they come from. -/
theorem filter_merge (htrans : ∀ a b c, le a b → le b c → le a c)
    (hp : ∀ a b, p a → p b → le a b) : ∀ {xs : List α} (ys : List α),
      xs.Pairwise (fun a b => le a b) →
        (xs.merge ys le).filter p = xs.filter p ++ ys.filter p
  | [], ys, _ => by simp
  | x :: xs, [], _ => by simp
  | x :: xs, y :: ys, hsorted => by
    obtain ⟨hx, hxs⟩ := List.pairwise_cons.mp hsorted
    rw [List.merge]
    by_cases hle : le x y
    · have hrec := filter_merge htrans hp (y :: ys) hxs
      by_cases hpx : p x <;> simp [hle, hpx, hrec]
    · rw [if_neg hle, List.filter_cons, filter_merge htrans hp ys hsorted]
      by_cases hy : p y
      · -- nothing in the first list compares as equal to `y`
        have hnil : (x :: xs).filter p = [] := by
          rw [List.filter_eq_nil_iff]
          intro z hz hpz
          rcases List.mem_cons.mp hz with rfl | hz
          · exact hle (hp z y hpz hy)
          · exact hle (htrans x z y (hx z hz) (hp z y hpz hy))
        simp [hnil, hy]
      · simp [hy]

theorem filter_pass (htrans : ∀ a b c, le a b → le b c → le a c)
    (hp : ∀ a b, p a → p b → le a b) {width : ℕ} :
    ∀ {fuel : ℕ} {l : List α}, RunsSorted le width l →
      (pass le width fuel l).filter p = l.filter p
  | 0, l, _ => rfl
  | fuel + 1, l, h => by
    rw [pass]
    split_ifs with hl
    · rw [List.isEmpty_iff.mp hl]
    · have hfirst : (l.take width).Pairwise (fun a b => le a b) := by simpa using h 0
      have hrest : RunsSorted le width (l.drop (2 * width)) := fun i => by
        have hi := h (i + 2)
        rwa [Nat.add_mul, Nat.add_comm, ← List.drop_drop] at hi
      have hdrop : l.drop (2 * width) = (l.drop width).drop width := by
        rw [List.drop_drop, Nat.two_mul]
      rw [List.filter_append, filter_merge htrans hp _ hfirst, filter_pass htrans hp hrest,
        hdrop, List.append_assoc, ← List.filter_append, List.take_append_drop,
        ← List.filter_append, List.take_append_drop]

theorem filter_sortFrom (htrans : ∀ a b c, le a b → le b c → le a c)
    (htotal : ∀ a b, le a b || le b a) (hp : ∀ a b, p a → p b → le a b) :
    ∀ {fuel width : ℕ} {l : List α}, 0 < width → RunsSorted le width l →
      (sortFrom le fuel width l).filter p = l.filter p
  | 0, _, _, _, _ => rfl
  | fuel + 1, width, l, hwidth, h => by
    rw [sortFrom]
    split_ifs with hlt
    · rw [filter_sortFrom htrans htotal hp (by omega)
        (h.pass htrans htotal hwidth (Nat.le_refl _)), filter_pass htrans hp h]
    · rfl

/-- Elements that compare as equal keep their order. -/
theorem filter_sort (htrans : ∀ a b c, le a b → le b c → le a c)
    (htotal : ∀ a b, le a b || le b a) (hp : ∀ a b, p a → p b → le a b) (l : List α) :
    (sort le l).filter p = l.filter p := by
  refine filter_sortFrom htrans htotal hp Nat.one_pos fun i => ?_
  rcases (l.drop (i * 1)) with _ | ⟨a, as⟩ <;> simp

end Stable

end MergeRuns
