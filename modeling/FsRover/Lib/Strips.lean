import Mathlib.Algebra.Order.Ring.Nat
import Mathlib.Data.List.Nodup
import Mathlib.Data.List.Perm.Subperm
import Mathlib.Data.Nat.Notation
import Mathlib.Tactic.Common

/-!
# Strips of cells

A file that is kept in pieces is a list of strips of a line of cells; its cells are those of the strips
in turn. Cells may be cut into smaller ones, and strips that have a multiple of `q` cells may be taken
as strips of cells `q` times as big.

## Main definitions

* `Strips.cells`, `Strips.seek` : the cells in turn, and the walk to one of them.
* `Strips.fine`, `Strips.coarse` : the strips in smaller, and in bigger cells.
* `Strips.Apart` : two strips have no cell in common.

## Main results

* `Strips.seek_spec` : the walk finds the cell.
-/

namespace Strips

/-- A strip of cells. -/
structure Strip where
  start : ℕ
  len : ℕ
  deriving DecidableEq

/-- The cells of the strips in turn. -/
def cells (strips : List Strip) : List ℕ := strips.flatMap fun s => List.range' s.start s.len

/-- The walk to the cell with the number `k`: the cell, or what is left of `k` behind the strips. -/
def seek : List Strip → ℕ → ℕ ⊕ ℕ
  | [], k => .inl k
  | s :: ss, k => if k < s.len then .inr (s.start + k) else seek ss (k - s.len)

/-- The strip in cells of which `q` make one. -/
def fine (q : ℕ) (s : Strip) : Strip := ⟨s.start * q, s.len * q⟩

/-- The strip in cells that are made of `q`. -/
def coarse (q : ℕ) (s : Strip) : Strip := ⟨s.start / q, s.len / q⟩

/-- One strip ends before the other begins. -/
def Apart (s t : Strip) : Prop := s.start + s.len ≤ t.start ∨ t.start + t.len ≤ s.start

variable {strips : List Strip} {s t : Strip} {k q x : ℕ}

theorem cells_cons {ss : List Strip} :
    cells (s :: ss) = List.range' s.start s.len ++ cells ss :=
  List.flatMap_cons

theorem cells_append {ss ts : List Strip} : cells (ss ++ ts) = cells ss ++ cells ts :=
  List.flatMap_append

theorem mem_cells : x ∈ cells strips ↔ ∃ s ∈ strips, s.start ≤ x ∧ x < s.start + s.len := by
  simp only [cells, List.mem_flatMap, List.mem_range'_1]

theorem length_cells_cons {ss : List Strip} :
    (cells (s :: ss)).length = s.len + (cells ss).length := by
  rw [cells_cons, List.length_append, List.length_range']

theorem getElem?_cells_cons {ss : List Strip} : (cells (s :: ss))[k]?
    = if k < s.len then some (s.start + k) else (cells ss)[k - s.len]? := by
  rw [cells_cons]
  split_ifs with hk
  · rw [List.getElem?_append_left (by rwa [List.length_range']), List.getElem?_range' hk]
    simp
  · rw [List.getElem?_append_right (by rw [List.length_range']; exact not_lt.mp hk),
      List.length_range']

/-- The walk finds the cell with the number, or counts down by the number of cells. -/
theorem seek_spec : match seek strips k with
    | .inr b => (cells strips)[k]? = some b
    | .inl rest => k = (cells strips).length + rest := by
  induction strips generalizing k with
  | nil => exact (Nat.zero_add k).symm
  | cons s ss ih =>
    rw [seek, length_cells_cons, getElem?_cells_cons]
    split_ifs with hk
    · rfl
    · have hrest := @ih (k - s.len)
      cases hseek : seek ss (k - s.len) with
      | inr b =>
        rw [hseek] at hrest
        exact hrest
      | inl rest =>
        rw [hseek] at hrest
        have hrest : k - s.len = (cells ss).length + rest := hrest
        dsimp only
        omega

/-! ### Other cells -/

theorem length_fine : (cells (strips.map (fine q))).length = (cells strips).length * q := by
  induction strips with
  | nil => exact (Nat.zero_mul q).symm
  | cons s ss ih => rw [List.map_cons, length_cells_cons, length_cells_cons, ih, fine, Nat.add_mul]

theorem getElem?_fine (hq : 0 < q) : (cells (strips.map (fine q)))[k]?
    = ((cells strips)[k / q]?).map fun b => b * q + k % q := by
  induction strips generalizing k with
  | nil => rfl
  | cons s ss ih =>
    rw [List.map_cons, getElem?_cells_cons, getElem?_cells_cons, ih, fine]
    dsimp only
    have hiff : k < s.len * q ↔ k / q < s.len := (Nat.div_lt_iff_lt_mul hq).symm
    have hsplit := Nat.div_add_mod k q
    by_cases hk : k / q < s.len
    · rw [if_pos (hiff.mpr hk), if_pos hk, Option.map_some, Nat.add_mul, Nat.add_assoc,
        Nat.mul_comm (k / q), hsplit]
    · rw [if_neg (fun h => hk (hiff.mp h)), if_neg hk]
      obtain ⟨j, hj⟩ := Nat.exists_eq_add_of_le (not_lt.mp (fun h => hk (hiff.mp h)))
      have hsub : k - s.len * q = j := by omega
      have hmod : k % q = j % q := by rw [hj, Nat.add_comm, Nat.add_mul_mod_self_right]
      have hdiv : k / q - s.len = j / q := by
        rw [hj, Nat.mul_comm, Nat.mul_add_div hq, Nat.add_sub_cancel_left]
      rw [hsub, hmod, hdiv]

theorem length_coarse (h : ∀ s ∈ strips, q ∣ s.len) :
    (cells (strips.map (coarse q))).length * q = (cells strips).length := by
  induction strips with
  | nil => exact Nat.zero_mul q
  | cons s ss ih =>
    obtain ⟨hs, hss⟩ := List.forall_mem_cons.mp h
    rw [List.map_cons, length_cells_cons, length_cells_cons, Nat.add_mul, ih hss, coarse,
      Nat.div_mul_cancel hs]

theorem getElem?_coarse (hq : 0 < q) (h : ∀ s ∈ strips, q ∣ s.len) :
    (cells (strips.map (coarse q)))[k]? = ((cells strips)[k * q]?).map (· / q) := by
  induction strips generalizing k with
  | nil => rfl
  | cons s ss ih =>
    obtain ⟨⟨m, hm⟩, hss⟩ := List.forall_mem_cons.mp h
    have hlen : s.len / q = m := by rw [hm, Nat.mul_div_cancel_left _ hq]
    rw [List.map_cons, getElem?_cells_cons, getElem?_cells_cons, ih hss, coarse]
    dsimp only
    rw [hlen, hm, Nat.mul_comm q m]
    have hiff : k * q < m * q ↔ k < m := Nat.mul_lt_mul_right hq
    by_cases hk : k < m
    · rw [if_pos hk, if_pos (hiff.mpr hk), Option.map_some, Nat.add_mul_div_right _ _ hq]
    · rw [if_neg hk, if_neg (fun h => hk (hiff.mp h)), Nat.sub_mul]

theorem getElem?_move {a b : ℕ} (h : ∀ s ∈ strips, b ≤ s.start) :
    (cells (strips.map fun s => ⟨a + s.start - b, s.len⟩))[k]?
      = ((cells strips)[k]?).map (a + · - b) := by
  induction strips generalizing k with
  | nil => rfl
  | cons s ss ih =>
    obtain ⟨hs, hss⟩ := List.forall_mem_cons.mp h
    rw [List.map_cons, getElem?_cells_cons, getElem?_cells_cons, ih hss]
    dsimp only
    split_ifs with hk
    · rw [Option.map_some]
      exact congrArg some (by omega)
    · rfl

theorem length_move {a b : ℕ} :
    (cells (strips.map fun s => ⟨a + s.start - b, s.len⟩)).length = (cells strips).length := by
  induction strips with
  | nil => rfl
  | cons s ss ih => rw [List.map_cons, length_cells_cons, length_cells_cons, ih]

/-! ### Strips apart -/

theorem Apart.symm (h : Apart s t) : Apart t s := Or.symm h

theorem Apart.not_mem (h : Apart s t) (hs : s.start ≤ x ∧ x < s.start + s.len) :
    ¬ (t.start ≤ x ∧ x < t.start + t.len) := by
  rw [Apart] at h
  omega

theorem Apart.fine (h : Apart s t) : Apart (fine q s) (fine q t) := by
  refine Or.imp (fun h => ?_) (fun h => ?_) h
  · exact (Nat.add_mul _ _ _).symm.trans_le (Nat.mul_le_mul_right q h)
  · exact (Nat.add_mul _ _ _).symm.trans_le (Nat.mul_le_mul_right q h)

theorem Apart.coarse (hq : 0 < q) (hs : q ∣ s.len) (ht : q ∣ t.len) (h : Apart s t) :
    Apart (coarse q s) (coarse q t) := by
  have hend : ∀ u : Strip, q ∣ u.len → u.start / q + u.len / q = (u.start + u.len) / q := by
    rintro u ⟨m, hm⟩
    rw [hm, Nat.mul_div_cancel_left _ hq, Nat.add_mul_div_left _ _ hq]
  refine Or.imp (fun h => ?_) (fun h => ?_) h
  · exact (hend s hs).trans_le (Nat.div_le_div_right h)
  · exact (hend t ht).trans_le (Nat.div_le_div_right h)

/-- Strips that are apart have no cell twice. -/
theorem nodup_cells (h : strips.Pairwise Apart) : (cells strips).Nodup := by
  rw [cells, List.nodup_flatMap]
  refine ⟨fun s _ => List.nodup_range', h.imp fun {s t} hst x hs ht => ?_⟩
  exact hst.not_mem (List.mem_range'_1.mp hs) (List.mem_range'_1.mp ht)

/-- Cells below a bound, without a cell twice, are not more than the bound. -/
theorem length_le_of_nodup {xs : List ℕ} {n : ℕ} (h : xs.Nodup) (hlt : ∀ x ∈ xs, x < n) :
    xs.length ≤ n := by
  have hsub : xs ⊆ List.range n := fun x hx => List.mem_range.mpr (hlt x hx)
  simpa using (h.subperm hsub).length_le

end Strips
