import Mathlib.Data.Nat.Notation
import Mathlib.Tactic.Common

/-!
# Ranges in a row

Things that have a start and a length, and follow one another without gap or overlap.

## Main definitions

* `Tiling.Tiles` : the things tile the numbers from one on up to another.

## Main results

* `Tiling.Tiles.append`, `Tiling.Tiles.prefix_tiles` : more at the end, and less.
* `Tiling.Tiles.exists_mem`, `Tiling.Tiles.unique` : each number lies in exactly one.
-/

namespace Tiling

variable {α : Type*} (lo len : α → ℕ)

/-- The things tile the numbers from `start` on up to `stop`. -/
def Tiles : ℕ → List α → ℕ → Prop
  | start, [], stop => start = stop
  | start, a :: as, stop => lo a = start ∧ 0 < len a ∧ Tiles (start + len a) as stop

variable {lo len} {as bs : List α} {a b : α} {start mid stop x : ℕ}

theorem Tiles.append_list (h : Tiles lo len start as mid) (h' : Tiles lo len mid bs stop) :
    Tiles lo len start (as ++ bs) stop := by
  induction as generalizing start with
  | nil =>
    have heq : start = mid := h
    rw [heq]
    exact h'
  | cons a as ih => exact ⟨h.1, h.2.1, ih h.2.2⟩

theorem Tiles.append (h : Tiles lo len start as stop) (hlo : lo a = stop) (hlen : 0 < len a) :
    Tiles lo len start (as ++ [a]) (stop + len a) :=
  h.append_list ⟨hlo, hlen, rfl⟩

/-- What stands in front tiles up to where the rest begins. -/
theorem Tiles.prefix_tiles (h : Tiles lo len start (as ++ bs) stop) :
    ∃ mid, Tiles lo len start as mid ∧ Tiles lo len mid bs stop := by
  induction as generalizing start with
  | nil => exact ⟨start, rfl, h⟩
  | cons a as ih =>
    obtain ⟨hlo, hlen, hrest⟩ := h
    obtain ⟨mid, hfront, hback⟩ := ih hrest
    exact ⟨mid, ⟨hlo, hlen, hfront⟩, hback⟩

theorem Tiles.le (h : Tiles lo len start as stop) : start ≤ stop := by
  induction as generalizing start with
  | nil =>
    have heq : start = stop := h
    exact Nat.le_of_eq heq
  | cons a as ih => exact Nat.le_trans (Nat.le_add_right _ _) (ih h.2.2)

theorem Tiles.bounds (h : Tiles lo len start as stop) (ha : a ∈ as) :
    start ≤ lo a ∧ 0 < len a ∧ lo a + len a ≤ stop := by
  induction as generalizing start with
  | nil => cases ha
  | cons b as ih =>
    obtain ⟨hlo, hlen, hrest⟩ := h
    rcases List.mem_cons.mp ha with rfl | ha
    · exact ⟨Nat.le_of_eq hlo.symm, hlen, by rw [hlo]; exact hrest.le⟩
    · obtain ⟨hle, hpos, hstop⟩ := ih hrest ha
      exact ⟨by omega, hpos, hstop⟩

theorem Tiles.pairwise (h : Tiles lo len start as stop) :
    as.Pairwise fun a b => lo a + len a ≤ lo b := by
  induction as generalizing start with
  | nil => exact List.Pairwise.nil
  | cons b as ih =>
    obtain ⟨hlo, -, hrest⟩ := h
    refine List.pairwise_cons.mpr ⟨fun a ha => ?_, ih hrest⟩
    rw [hlo]
    exact (hrest.bounds ha).1

/-- Every number from the start up to the end lies in one of the things. -/
theorem Tiles.exists_mem (h : Tiles lo len start as stop) (hstart : start ≤ x) (hstop : x < stop) :
    ∃ a ∈ as, lo a ≤ x ∧ x < lo a + len a := by
  induction as generalizing start with
  | nil =>
    have heq : start = stop := h
    omega
  | cons b as ih =>
    obtain ⟨hlo, -, hrest⟩ := h
    by_cases hin : x < start + len b
    · exact ⟨b, List.mem_cons_self, by omega, by omega⟩
    · obtain ⟨a, ha, hx⟩ := ih hrest (by omega)
      exact ⟨a, List.mem_cons_of_mem _ ha, hx⟩

theorem Tiles.index_eq (h : Tiles lo len start as stop) {i j : ℕ} (hi : i < as.length)
    (hj : j < as.length) (hx : lo as[i] ≤ x ∧ x < lo as[i] + len as[i])
    (hx' : lo as[j] ≤ x ∧ x < lo as[j] + len as[j]) : i = j := by
  have hbefore := List.pairwise_iff_getElem.mp h.pairwise
  rcases Nat.lt_trichotomy i j with hlt | heq | hgt
  · have hgap := hbefore i j hi hj hlt
    omega
  · exact heq
  · have hgap := hbefore j i hj hi hgt
    omega

theorem Tiles.unique (h : Tiles lo len start as stop) (ha : a ∈ as) (hb : b ∈ as)
    (hx : lo a ≤ x ∧ x < lo a + len a) (hx' : lo b ≤ x ∧ x < lo b + len b) : a = b := by
  obtain ⟨i, hi, rfl⟩ := List.getElem_of_mem ha
  obtain ⟨j, hj, rfl⟩ := List.getElem_of_mem hb
  obtain rfl := h.index_eq hi hj hx hx'
  rfl

end Tiling
