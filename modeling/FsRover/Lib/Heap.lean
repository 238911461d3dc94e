import Mathlib.Logic.Equiv.Basic
import Mathlib.Order.Lattice
import Mathlib.Data.List.Nodup
import Mathlib.Data.Nat.Notation
import Mathlib.Tactic.Common

/-!
# Heapsort

An array of `n` elements is a function of the index, of which the first `n` values count. Elements
are compared by a key.

## Main definitions

* `Heap.Rearranges` : the first `n` elements of one array are those of another in some order.

## Main results

* `Heap.siftDown_heap` : sifting repairs a heap that is broken at the root of the sift.
* `Heap.sort_rearranges`, `Heap.sort_sorted`, and for lists `Heap.perm_map_sort`,
  `Heap.pairwise_map_sort`.
-/

namespace Heap

variable {α κ : Type*} [LinearOrder κ] (key : α → κ)

/-- Sink the element at `root` in the heap of the first `n` elements. -/
def siftDown : ℕ → (ℕ → α) → ℕ → ℕ → ℕ → α
  | 0, a, _, _ => a
  | fuel + 1, a, root, n =>
    let child := 2 * root + 1
    if n ≤ child then a
    else
      let big := if child + 1 < n ∧ key (a child) < key (a (child + 1)) then child + 1 else child
      if key (a root) < key (a big) then siftDown fuel (a ∘ Equiv.swap root big) big n else a

/-- Sift at `i - 1`, `i - 2`, …, `0`. -/
def build (n : ℕ) : ℕ → (ℕ → α) → ℕ → α
  | 0, a => a
  | i + 1, a => build n i (siftDown key n a i n)

/-- Move the largest of the first `i` elements behind the others, for `i` from `n` down to `2`. -/
def extract : ℕ → (ℕ → α) → ℕ → α
  | 0, a => a
  | i + 1, a =>
    if 1 < i + 1 then extract i (siftDown key i (a ∘ Equiv.swap 0 i) 0 i) else a

/-- Heapsort of the first `n` elements. -/
def sort (n : ℕ) (a : ℕ → α) : ℕ → α := extract key n (build key n (n / 2) a)

/-- The first `n` elements of `b` are those of `a` in some order, and the others stay. -/
def Rearranges (n : ℕ) (a b : ℕ → α) : Prop :=
  ∃ σ : Equiv.Perm ℕ, (∀ i, n ≤ i → σ i = i) ∧ b = a ∘ σ

/-- No element from `lo` on is below one of its children. -/
def HeapFrom (a : ℕ → α) (lo n : ℕ) : Prop :=
  ∀ i c, lo ≤ i → (c = 2 * i + 1 ∨ c = 2 * i + 2) → c < n → key (a c) ≤ key (a i)

namespace Rearranges

omit [LinearOrder κ]
variable {n m : ℕ} {a b c : ℕ → α}

theorem refl (n : ℕ) (a : ℕ → α) : Rearranges n a a := ⟨Equiv.refl ℕ, fun _ _ => rfl, rfl⟩

theorem trans (h : Rearranges n a b) (h' : Rearranges n b c) : Rearranges n a c := by
  obtain ⟨σ, hσ, rfl⟩ := h
  obtain ⟨τ, hτ, rfl⟩ := h'
  refine ⟨τ.trans σ, fun i hi => ?_, rfl⟩
  rw [Equiv.trans_apply, hτ i hi, hσ i hi]

theorem mono (hnm : n ≤ m) (h : Rearranges n a b) : Rearranges m a b :=
  let ⟨σ, hσ, hb⟩ := h
  ⟨σ, fun i hi => hσ i (hnm.trans hi), hb⟩

theorem swap {i j : ℕ} (hi : i < n) (hj : j < n) (a : ℕ → α) :
    Rearranges n a (a ∘ Equiv.swap i j) :=
  ⟨Equiv.swap i j, fun k hk => Equiv.swap_apply_of_ne_of_ne (by omega) (by omega), rfl⟩

/-- Elements past the first `n` stay. -/
theorem apply_of_le (h : Rearranges n a b) {i : ℕ} (hi : n ≤ i) : b i = a i := by
  obtain ⟨σ, hσ, rfl⟩ := h
  rw [Function.comp_apply, hσ i hi]

/-- Each of the first `n` elements was one of them before. -/
theorem exists_eq (h : Rearranges n a b) {i : ℕ} (hi : i < n) : ∃ j < n, b i = a j := by
  obtain ⟨σ, hσ, rfl⟩ := h
  refine ⟨σ i, Nat.lt_of_not_le fun hle => ?_, rfl⟩
  have hfix := σ.injective (hσ (σ i) hle)
  omega

/-- Each of the first `n` elements is still one of them. -/
theorem exists_eq' (h : Rearranges n a b) {i : ℕ} (hi : i < n) : ∃ j < n, b j = a i := by
  obtain ⟨σ, hσ, rfl⟩ := h
  refine ⟨σ.symm i, Nat.lt_of_not_le fun hle => ?_, congrArg a (σ.apply_symm_apply i)⟩
  have hfix := hσ _ hle
  rw [σ.apply_symm_apply] at hfix
  omega

/-- As lists, the first `n` elements are permuted. -/
theorem perm (h : Rearranges n a b) : ((List.range n).map b).Perm ((List.range n).map a) := by
  obtain ⟨σ, hσ, rfl⟩ := h
  rw [← List.map_map]
  refine List.Perm.map a ?_
  rw [List.perm_ext_iff_of_nodup (List.nodup_range.map σ.injective) List.nodup_range]
  intro i
  simp only [List.mem_map, List.mem_range]
  constructor
  · rintro ⟨j, hj, rfl⟩
    refine Nat.lt_of_not_le fun hle => ?_
    have hfix := σ.injective (hσ (σ j) hle)
    omega
  · intro hi
    refine ⟨σ.symm i, Nat.lt_of_not_le fun hle => ?_, σ.apply_symm_apply i⟩
    have hfix := hσ _ hle
    rw [σ.apply_symm_apply] at hfix
    omega

end Rearranges

variable {key}

theorem siftDown_rearranges : ∀ fuel (a : ℕ → α) root n, root < n →
    Rearranges n a (siftDown key fuel a root n)
  | 0, a, _, n, _ => .refl n a
  | fuel + 1, a, root, n, hroot => by
    simp only [siftDown]
    split_ifs with hchild hbig hlt hlt
    · exact .refl n a
    · exact (Rearranges.swap hroot (by omega) a).trans (siftDown_rearranges fuel _ _ n (by omega))
    · exact .refl n a
    · exact (Rearranges.swap hroot (by omega) a).trans (siftDown_rearranges fuel _ _ n (by omega))
    · exact .refl n a

/-- What a sift at `root` needs: the other elements are not below their children, and the parent
of `root` is not below the children of `root`. -/
structure HeapBut (key : α → κ) (a : ℕ → α) (root lo n : ℕ) : Prop where
  except : ∀ i c, lo ≤ i → i ≠ root → (c = 2 * i + 1 ∨ c = 2 * i + 2) → c < n →
    key (a c) ≤ key (a i)
  grand : ∀ p c, lo ≤ p → (root = 2 * p + 1 ∨ root = 2 * p + 2) →
    (c = 2 * root + 1 ∨ c = 2 * root + 2) → c < n → key (a c) ≤ key (a p)

/-- A sift may stop where the element is not below its children. -/
theorem HeapBut.heapFrom {a : ℕ → α} {root lo n : ℕ} (h : HeapBut key a root lo n)
    (hroot : ∀ c, (c = 2 * root + 1 ∨ c = 2 * root + 2) → c < n → key (a c) ≤ key (a root)) :
    HeapFrom key a lo n := by
  intro i c hi hc hcn
  by_cases hir : i = root
  · rw [hir] at hc ⊢
    exact hroot c hc hcn
  · exact h.except i c hi hir hc hcn

/-- One round of a sift: the larger child `big` goes up, and the heap is now broken at `big`. -/
theorem HeapBut.swap {a : ℕ → α} {root big lo n : ℕ} (h : HeapBut key a root lo n)
    (hlo : lo ≤ root) (hbig : big = 2 * root + 1 ∨ big = 2 * root + 2) (hbn : big < n)
    (hlt : key (a root) < key (a big))
    (hmax : ∀ c, (c = 2 * root + 1 ∨ c = 2 * root + 2) → c < n → key (a c) ≤ key (a big)) :
    HeapBut key (a ∘ Equiv.swap root big) big lo n := by
  have hat : ∀ i, i ≠ root → i ≠ big → (a ∘ Equiv.swap root big) i = a i := fun i hir hib => by
    rw [Function.comp_apply, Equiv.swap_apply_of_ne_of_ne hir hib]
  have hatroot : (a ∘ Equiv.swap root big) root = a big := by simp
  have hatbig : (a ∘ Equiv.swap root big) big = a root := by simp
  constructor
  · intro i c hi hib hc hcn
    by_cases hir : i = root
    · rw [hir, hatroot]
      by_cases hcb : c = big
      · rw [hcb, hatbig]
        exact hlt.le
      · rw [hat c (by omega) hcb]
        exact hmax c (hir ▸ hc) hcn
    · rw [hat i hir hib]
      by_cases hcr : c = root
      · rw [hcr, hatroot]
        exact h.grand i big hi (hcr ▸ hc) hbig hbn
      · rw [hat c hcr (by omega)]
        exact h.except i c hi hir hc hcn
  · intro p c hp hpb hc hcn
    obtain rfl : p = root := by omega
    rw [hatroot, hat c (by omega) (by omega)]
    exact h.except big c (by omega) (by omega) hc hcn

/-- Sifting repairs a heap that is broken at the root of the sift only. -/
theorem siftDown_heap {lo n : ℕ} : ∀ fuel (a : ℕ → α) root, lo ≤ root → n ≤ fuel + root →
    HeapBut key a root lo n → HeapFrom key (siftDown key fuel a root n) lo n
  | 0, a, root, _, hfuel, h => h.heapFrom fun c hc hcn => by omega
  | fuel + 1, a, root, hlo, hfuel, h => by
    simp only [siftDown]
    split_ifs with hchild hbig hlt hlt
    · exact h.heapFrom fun c hc hcn => by omega
    · refine siftDown_heap fuel _ _ (by omega) (by omega)
        (h.swap hlo (Or.inr rfl) hbig.1 hlt fun c hc hcn => ?_)
      rcases hc with rfl | rfl
      · exact hbig.2.le
      · exact le_rfl
    · refine h.heapFrom fun c hc hcn => ?_
      rcases hc with rfl | rfl
      · exact hbig.2.le.trans (not_lt.mp hlt)
      · exact not_lt.mp hlt
    · refine siftDown_heap fuel _ _ (by omega) (by omega)
        (h.swap hlo (Or.inl rfl) (by omega) hlt fun c hc hcn => ?_)
      rcases hc with rfl | rfl
      · exact le_rfl
      · exact not_lt.mp fun h' => hbig ⟨hcn, h'⟩
    · refine h.heapFrom fun c hc hcn => ?_
      rcases hc with rfl | rfl
      · exact not_lt.mp hlt
      · exact (not_lt.mp fun h' => hbig ⟨hcn, h'⟩).trans (not_lt.mp hlt)

/-! ### The two loops -/

theorem build_rearranges (n : ℕ) : ∀ i (a : ℕ → α), i ≤ n → Rearranges n a (build key n i a)
  | 0, a, _ => .refl n a
  | i + 1, a, hi =>
    (siftDown_rearranges n a i n (by omega)).trans (build_rearranges n i _ (by omega))

theorem build_heap (n : ℕ) : ∀ i (a : ℕ → α), HeapFrom key a i n →
    HeapFrom key (build key n i a) 0 n
  | 0, _, h => h
  | i + 1, a, h => by
    refine build_heap n i _ (siftDown_heap n a i le_rfl (by omega) ⟨?_, ?_⟩)
    · intro j c hj hji hc hcn
      exact h j c (by omega) hc hcn
    · intro p c hp hroot
      omega

theorem HeapFrom.le_root {a : ℕ → α} {n : ℕ} (h : HeapFrom key a 0 n) :
    ∀ i, i < n → key (a i) ≤ key (a 0) := by
  intro i
  induction i using Nat.strong_induction_on with
  | _ i ih =>
    intro hi
    rcases Nat.eq_zero_or_pos i with rfl | hpos
    · exact le_rfl
    · exact (h ((i - 1) / 2) i (Nat.zero_le _) (by omega) hi).trans (ih _ (by omega) (by omega))

theorem extract_rearranges : ∀ n (a : ℕ → α), Rearranges n a (extract key n a)
  | 0, a => .refl 0 a
  | n + 1, a => by
    simp only [extract]
    split_ifs with hn
    · exact (Rearranges.swap (by omega) (by omega) a).trans
        (((siftDown_rearranges n _ 0 n (by omega)).trans (extract_rearranges n _)).mono (by omega))
    · exact .refl _ a

/-- What is behind the heap is sorted, and no element of the heap is above it. -/
structure SortedFrom (key : α → κ) (a : ℕ → α) (m n : ℕ) : Prop where
  sorted : ∀ i j, m ≤ i → i ≤ j → j < n → key (a i) ≤ key (a j)
  above : ∀ i j, i < m → m ≤ j → j < n → key (a i) ≤ key (a j)

theorem extract_sorted {n : ℕ} : ∀ m (a : ℕ → α), m ≤ n → HeapFrom key a 0 m →
    SortedFrom key a m n → SortedFrom key (extract key m a) 0 n
  | 0, _, _, _, h => h
  | m + 1, a, hmn, hheap, h => by
    simp only [extract]
    split_ifs with hm
    · set b := a ∘ Equiv.swap 0 m with hb
      have hbm : b m = a 0 := by simp [hb]
      have hb0 : b 0 = a m := by simp [hb]
      have hbat : ∀ i, i ≠ 0 → i ≠ m → b i = a i := fun i h0 him => by
        rw [hb, Function.comp_apply, Equiv.swap_apply_of_ne_of_ne h0 him]
      have hsift := @siftDown_rearranges _ _ _ key m b 0 m (by omega)
      have htop : ∀ i, i < m → key (siftDown key m b 0 m i) ≤ key (b m) := by
        intro i hi
        obtain ⟨j, hj, heq⟩ := hsift.exists_eq hi
        rw [heq, hbm]
        rcases Nat.eq_zero_or_pos j with rfl | hpos
        · rw [hb0]
          exact hheap.le_root m (by omega)
        · rw [hbat j (by omega) (by omega)]
          exact hheap.le_root j (by omega)
      have hrest : ∀ j, m < j → siftDown key m b 0 m j = a j := fun j hj => by
        rw [hsift.apply_of_le hj.le, hbat j (by omega) (by omega)]
      refine extract_sorted m _ (by omega) (siftDown_heap m b 0 (Nat.le_refl _) (by omega) ⟨?_, ?_⟩)
        ⟨?_, ?_⟩
      · intro i c _ hi hc hcm
        rw [hbat c (by omega) (by omega), hbat i hi (by omega)]
        exact hheap i c (Nat.zero_le _) hc (by omega)
      · intro p c _ hroot
        omega
      · intro i j hi hij hj
        rcases Nat.lt_or_ge m i with hlt | hle
        · rw [hrest i hlt, hrest j (by omega)]
          exact h.sorted i j hlt hij hj
        · obtain rfl : i = m := by omega
          rw [hsift.apply_of_le (Nat.le_refl _), hbm]
          rcases Nat.lt_or_ge i j with hlt | hge
          · rw [hrest j hlt]
            exact h.above 0 j (by omega) hlt hj
          · obtain rfl : j = i := by omega
            rw [hsift.apply_of_le (Nat.le_refl _), hbm]
      · intro i j hi hmj hj
        refine (htop i hi).trans ?_
        rw [hbm]
        rcases Nat.lt_or_ge m j with hlt | hge
        · rw [hrest j hlt]
          exact h.above 0 j (by omega) hlt hj
        · obtain rfl : j = m := by omega
          rw [hsift.apply_of_le (Nat.le_refl _), hbm]
    · exact ⟨fun i j _ hij hj => by
        rcases Nat.eq_zero_or_pos i with rfl | hpos
        · rcases Nat.eq_zero_or_pos j with rfl | hpos'
          · exact le_rfl
          · exact h.above 0 j (by omega) (by omega) hj
        · exact h.sorted i j (by omega) hij hj, fun i j hi => absurd hi (Nat.not_lt_zero i)⟩

theorem sort_rearranges (n : ℕ) (a : ℕ → α) : Rearranges n a (sort key n a) :=
  (build_rearranges n (n / 2) a (Nat.div_le_self n 2)).trans (extract_rearranges n _)

theorem sort_sorted (n : ℕ) (a : ℕ → α) {i j : ℕ} (hij : i ≤ j) (hj : j < n) :
    key (sort key n a i) ≤ key (sort key n a j) := by
  have hheap : HeapFrom key (build key n (n / 2) a) 0 n :=
    build_heap n (n / 2) a fun i c hi hc hcn => by omega
  have hsorted : SortedFrom key (extract key n (build key n (n / 2) a)) 0 n :=
    extract_sorted n _ (Nat.le_refl n) hheap
      ⟨fun i j hi hij hj => by omega, fun i j _ hj hj' => by omega⟩
  exact hsorted.sorted i j (Nat.zero_le i) hij hj

/-! ### Lists -/

section Lists

variable (key) [Inhabited α] (l : List α)

theorem perm_map_sort :
    ((List.range l.length).map (sort key l.length fun i => l.getD i default)).Perm l := by
  have hsort : Rearranges l.length _ (sort key l.length fun i => l.getD i default) :=
    sort_rearranges l.length _
  have hperm := hsort.perm
  have hself : (List.range l.length).map (fun i => l.getD i default) = l := by
    refine List.ext_getElem (by simp) fun i hi _ => ?_
    simp only [List.length_map, List.length_range] at hi
    simp [hi]
  rw [hself] at hperm
  exact hperm

theorem pairwise_map_sort :
    ((List.range l.length).map (sort key l.length fun i => l.getD i default)).Pairwise
      fun a b => key a ≤ key b := by
  refine List.pairwise_iff_getElem.mpr fun i j hi hj hij => ?_
  simp only [List.length_map, List.length_range] at hj
  simp only [List.getElem_map, List.getElem_range]
  exact sort_sorted l.length _ hij.le hj

end Lists

end Heap
