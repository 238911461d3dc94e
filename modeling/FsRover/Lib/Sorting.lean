import Mathlib.Tactic.Common

/-!
# Stability of merge sort

Sorting keeps the order of elements that the order does not tell apart.
-/

namespace Sorting

variable {α : Type*} {le : α → α → Bool}

/-- Elements that compare as equal keep their order. -/
theorem filter_mergeSort (trans : ∀ a b c : α, le a b → le b c → le a c)
    (total : ∀ a b : α, le a b || le b a) {p : α → Bool} (hp : ∀ a b, p a → p b → le a b)
    (l : List α) : (l.mergeSort le).filter p = l.filter p := by
  have hsorted : (l.filter p).Pairwise (le · ·) :=
    List.pairwise_of_forall_mem_list fun a ha b hb =>
      hp a b (List.mem_filter.mp ha).2 (List.mem_filter.mp hb).2
  have hsub : (l.filter p).Sublist ((l.mergeSort le).filter p) := by
    have hfilter := (List.sublist_mergeSort trans total hsorted List.filter_sublist).filter p
    simpa only [List.filter_filter, Bool.and_self] using hfilter
  have hlen : (l.filter p).length = ((l.mergeSort le).filter p).length :=
    ((List.mergeSort_perm l le).symm.filter p).length_eq
  exact (hsub.eq_of_length hlen).symm

end Sorting
