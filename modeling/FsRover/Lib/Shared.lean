import Mathlib.Data.List.Count
import Mathlib.Logic.Function.Basic
import Mathlib.Data.Nat.Notation
import Mathlib.Tactic.Common

/-!
# Counted references

Objects that several holders share carry the number of their holders. Whoever lets go of one last
releases it.

## Main definitions

* `Shared.Heap` : the objects that are not released, with `alloc`, `hold` and `put`.
* `Shared.Counts` : every count is that of the holders.

## Main results

* `Shared.Counts.alloc`, `Shared.Counts.hold`, `Shared.Counts.put` : the operations keep the counts.
* `Shared.Counts.get_isSome_iff` : an object is there as long as somebody holds it.
-/

namespace Shared

variable {α : Type*}

/-- Objects with their counts, by handle; handles from `next` on are not in use. -/
structure Heap (α : Type*) where
  next : ℕ
  cell : ℕ → Option (α × ℕ)

namespace Heap

def empty : Heap α := ⟨0, fun _ => none⟩

/-- The object with this handle, unless it is released. -/
def get (heap : Heap α) (h : ℕ) : Option α := (heap.cell h).map Prod.fst

/-- A new object at `heap.next`, with one holder. -/
def alloc (heap : Heap α) (a : α) : Heap α :=
  ⟨heap.next + 1, Function.update heap.cell heap.next (some (a, 1))⟩

/-- One more holder. -/
def hold (heap : Heap α) (h : ℕ) : Heap α :=
  { heap with
    cell := Function.update heap.cell h ((heap.cell h).map fun c => (c.1, c.2 + 1)) }

/-- One holder less; the last one releases the object. -/
def put (heap : Heap α) (h : ℕ) : Heap α :=
  { heap with
    cell := Function.update heap.cell h
      ((heap.cell h).bind fun c => if c.2 = 1 then none else some (c.1, c.2 - 1)) }

variable (heap : Heap α)

@[simp] theorem get_alloc_self (a : α) : (heap.alloc a).get heap.next = some a := by
  simp [get, alloc]

theorem get_alloc_of_ne (a : α) {h : ℕ} (hne : h ≠ heap.next) :
    (heap.alloc a).get h = heap.get h := by
  simp [get, alloc, Function.update_of_ne hne]

@[simp] theorem get_hold (h h' : ℕ) : (heap.hold h).get h' = heap.get h' := by
  by_cases heq : h' = h
  · subst heq
    simp [get, hold, Function.comp_def]
  · simp [get, hold, Function.update_of_ne heq]

/-- What is there after `put` was there before. -/
theorem get_of_put {h h' : ℕ} {a : α} (hget : (heap.put h).get h' = some a) :
    heap.get h' = some a := by
  by_cases heq : h' = h
  · subst heq
    simp only [get, put, Function.update_self] at hget ⊢
    cases hcell : heap.cell h' with
    | none =>
      rw [hcell] at hget
      cases hget
    | some c =>
      rw [hcell, Option.bind_some] at hget
      split_ifs at hget with hone
      · cases hget
      · exact hget
  · simpa [get, put, Function.update_of_ne heq] using hget

end Heap

/-- The count of an object is the number of times it is held; what is released is not held. -/
structure Counts (heap : Heap α) (holders : List ℕ) : Prop where
  count : ∀ h, ((heap.cell h).map Prod.snd).getD 0 = holders.count h
  pos : ∀ h c, heap.cell h = some c → 0 < c.2
  fresh : ∀ h, heap.next ≤ h → heap.cell h = none

namespace Counts

variable {heap : Heap α} {holders holders' : List ℕ} {h : ℕ}

theorem empty : Counts (Heap.empty : Heap α) [] where
  count _ := rfl
  pos _ _ hcell := by cases hcell
  fresh _ _ := rfl

theorem perm (hc : Counts heap holders) (hperm : holders.Perm holders') : Counts heap holders' :=
  { hc with count := fun h => (hc.count h).trans (hperm.count_eq h) }

/-- An object is there as long as it is held. -/
theorem get_isSome_iff (hc : Counts heap holders) (h : ℕ) :
    (heap.get h).isSome = true ↔ h ∈ holders := by
  have hcount := hc.count h
  rw [Heap.get]
  cases hcell : heap.cell h with
  | none =>
    rw [hcell] at hcount
    have hzero : h ∉ holders := List.count_eq_zero.mp hcount.symm
    simp [hzero]
  | some c =>
    have hpos := hc.pos h c hcell
    rw [hcell] at hcount
    simp only [Option.map_some, Option.getD_some] at hcount
    have hmem : h ∈ holders := List.count_pos_iff.mp (hcount ▸ hpos)
    simp [hmem]

theorem lt_next (hc : Counts heap holders) (hmem : h ∈ holders) : h < heap.next := by
  by_contra hle
  have hsome := (hc.get_isSome_iff h).mpr hmem
  rw [Heap.get, hc.fresh h (Nat.not_lt.mp hle)] at hsome
  cases hsome

theorem alloc (hc : Counts heap holders) (a : α) :
    Counts (heap.alloc a) (heap.next :: holders) := by
  have hnot : heap.next ∉ holders := fun hmem => absurd (hc.lt_next hmem) (Nat.lt_irrefl _)
  refine ⟨fun h => ?_, fun h c hcell => ?_, fun h hle => ?_⟩
  · by_cases heq : h = heap.next
    · subst heq
      simp [Heap.alloc, List.count_eq_zero.mpr hnot]
    · simp [List.count_cons_of_ne (Ne.symm heq), ← hc.count h, Heap.alloc,
        Function.update_of_ne heq]
  · by_cases heq : h = heap.next
    · subst heq
      simp only [Heap.alloc, Function.update_self, Option.some.injEq] at hcell
      rw [← hcell]
      exact Nat.one_pos
    · simp only [Heap.alloc, Function.update_of_ne heq] at hcell
      exact hc.pos h c hcell
  · have hlt : heap.next + 1 ≤ h := hle
    have hne : h ≠ heap.next := by omega
    simp only [Heap.alloc, Function.update_of_ne hne]
    exact hc.fresh h (by omega)

theorem hold (hc : Counts heap holders) (hmem : h ∈ holders) :
    Counts (heap.hold h) (h :: holders) := by
  obtain ⟨a, hget⟩ := Option.isSome_iff_exists.mp ((hc.get_isSome_iff h).mpr hmem)
  rw [Heap.get, Option.map_eq_some_iff] at hget
  obtain ⟨c, hcell, -⟩ := hget
  refine ⟨fun k => ?_, fun k c' hc' => ?_, fun k hle => ?_⟩
  · have hcount := hc.count k
    by_cases heq : k = h
    · subst heq
      rw [hcell] at hcount
      simp only [Heap.hold, Function.update_self, hcell, List.count_cons_self, ← hcount]
      rfl
    · simp [List.count_cons_of_ne (Ne.symm heq), ← hcount, Heap.hold, Function.update_of_ne heq]
  · by_cases heq : k = h
    · subst heq
      simp only [Heap.hold, Function.update_self, hcell, Option.map_some, Option.some.injEq] at hc'
      rw [← hc']
      exact Nat.succ_pos _
    · simp only [Heap.hold, Function.update_of_ne heq] at hc'
      exact hc.pos k c' hc'
  · have hne : k ≠ h := by
      rintro rfl
      rw [hc.fresh k hle] at hcell
      cases hcell
    simp only [Heap.hold, Function.update_of_ne hne]
    exact hc.fresh k hle

theorem put (hc : Counts heap (h :: holders)) : Counts (heap.put h) holders := by
  obtain ⟨a, hget⟩ := Option.isSome_iff_exists.mp ((hc.get_isSome_iff h).mpr List.mem_cons_self)
  rw [Heap.get, Option.map_eq_some_iff] at hget
  obtain ⟨c, hcell, -⟩ := hget
  have hself := hc.count h
  rw [hcell, List.count_cons_self] at hself
  simp only [Option.map_some, Option.getD_some] at hself
  refine ⟨fun k => ?_, fun k c' hc' => ?_, fun k hle => ?_⟩
  · by_cases heq : k = h
    · subst heq
      simp only [Heap.put, Function.update_self, hcell, Option.bind_some]
      split_ifs with hone
      · simp only [Option.map_none, Option.getD_none]
        omega
      · simp only [Option.map_some, Option.getD_some]
        omega
    · have hcount := hc.count k
      rw [List.count_cons_of_ne (Ne.symm heq)] at hcount
      simp [← hcount, Heap.put, Function.update_of_ne heq]
  · by_cases heq : k = h
    · subst heq
      simp only [Heap.put, Function.update_self, hcell, Option.bind_some] at hc'
      have hpos := hc.pos k c hcell
      split_ifs at hc' with hone
      rw [← Option.some.inj hc']
      exact Nat.sub_pos_of_lt (by omega)
    · simp only [Heap.put, Function.update_of_ne heq] at hc'
      exact hc.pos k c' hc'
  · have hne : k ≠ h := by
      rintro rfl
      rw [hc.fresh k hle] at hcell
      cases hcell
    simp only [Heap.put, Function.update_of_ne hne]
    exact hc.fresh k hle

theorem get_put (hc : Counts heap (h :: holders)) {k : ℕ} (hmem : k ∈ holders) :
    (heap.put h).get k = heap.get k := by
  obtain ⟨a, hget⟩ := Option.isSome_iff_exists.mp ((hc.put.get_isSome_iff k).mpr hmem)
  rw [hget, Heap.get_of_put heap hget]

theorem get_alloc (hc : Counts heap holders) (a : α) {k : ℕ} (hmem : k ∈ holders) :
    (heap.alloc a).get k = heap.get k :=
  Heap.get_alloc_of_ne heap a (Nat.ne_of_lt (hc.lt_next hmem))

end Counts

end Shared
