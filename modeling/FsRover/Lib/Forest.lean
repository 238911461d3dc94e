import Mathlib.Data.List.Count
import Mathlib.Data.List.Nodup
import Mathlib.Data.Nat.Notation
import Mathlib.Logic.Function.Iterate
import Mathlib.Order.Lattice.Nat
import Mathlib.Tactic.Common

/-!
# Trees by parents

Nodes that name their parents, and a listing that goes down from the root. Where every node reaches
the root, the listing has each of them once.

## Main definitions

* `Forest.below` : the nodes below a node, down to a depth.
* `Forest.Rooted` : the nodes that a table of children lists, all of them below the root.

## Main results

* `Forest.Rooted.below_perm` : the listing of the root is the nodes, in some order.
* `Forest.saturate_stable` : passes that mark a further element each come to an end.
-/

namespace Forest

variable {ι : Type*}

/-- The nodes below `a`, down to `n` levels. -/
def below (kids : ι → List ι) : ℕ → ι → List ι
  | 0, _ => []
  | n + 1, a => (kids a).flatMap fun b => b :: below kids n b

/-- Every node is a child of its parent and comes to the root in at most `bound` steps. -/
structure Rooted (kids : ι → List ι) (parent : ι → ι) (nodes : List ι) (root : ι) (bound : ℕ) :
    Prop where
  distinct : nodes.Nodup
  free : root ∉ nodes
  nodup : ∀ a, (kids a).Nodup
  mem_kids : ∀ a b, b ∈ kids a ↔ b ∈ nodes ∧ parent b = a
  up : ∀ b ∈ nodes, parent b = root ∨ parent b ∈ nodes
  reach : ∀ b ∈ nodes, ∃ n ≤ bound, parent^[n] b = root

variable {kids : ι → List ι} {parent : ι → ι} {nodes : List ι} {root : ι} {bound : ℕ}

/-- The number of steps to the root. -/
noncomputable def depth (parent : ι → ι) (root b : ι) : ℕ := sInf {n | parent^[n] b = root}

theorem depth_le {b : ι} {n : ℕ} (h : parent^[n] b = root) : depth parent root b ≤ n :=
  Nat.sInf_le h

theorem iterate_depth {b : ι} (h : ∃ n, parent^[n] b = root) :
    parent^[depth parent root b] b = root :=
  Nat.sInf_mem (s := {n | parent^[n] b = root}) h

theorem depth_eq_succ {b : ι} (hb : b ≠ root) (h : ∃ n, parent^[n] b = root) :
    depth parent root b = depth parent root (parent b) + 1 := by
  have hpos : depth parent root b ≠ 0 := by
    intro hzero
    have hroot := iterate_depth h
    rw [hzero] at hroot
    exact hb hroot
  obtain ⟨d, hd⟩ := Nat.exists_eq_succ_of_ne_zero hpos
  have hstep : parent^[d] (parent b) = root := by
    have hroot := iterate_depth h
    rwa [hd, Function.iterate_succ_apply] at hroot
  refine Nat.le_antisymm (depth_le ?_) ?_
  · rw [Function.iterate_succ_apply]
    exact iterate_depth ⟨d, hstep⟩
  · rw [hd]
    exact Nat.succ_le_succ (depth_le hstep)

/-- What is listed below `a` comes to `a`, over nodes. -/
theorem climb_of_mem_below (hkids : ∀ a b, b ∈ kids a ↔ b ∈ nodes ∧ parent b = a) {n : ℕ} {a b : ι}
    (h : b ∈ below kids n a) : ∃ j, parent^[j + 1] b = a ∧ ∀ i ≤ j, parent^[i] b ∈ nodes := by
  induction n generalizing a with
  | zero => cases h
  | succ n ih =>
    obtain ⟨c, hc, hb⟩ := List.mem_flatMap.mp h
    obtain ⟨hnode, hparent⟩ := (hkids a c).mp hc
    rcases List.mem_cons.mp hb with rfl | hb
    · exact ⟨0, hparent, fun i hi => by rwa [Nat.le_zero.mp hi]⟩
    obtain ⟨j, hj, hnodes⟩ := ih hb
    refine ⟨j + 1, ?_, fun i hi => ?_⟩
    · rw [Function.iterate_succ_apply', hj, hparent]
    · rcases Nat.le_or_eq_of_le_succ hi with hi | rfl
      · exact hnodes i hi
      · rwa [hj]

namespace Rooted

variable (h : Rooted kids parent nodes root bound)

include h

theorem ne_root {b : ι} (hb : b ∈ nodes) : b ≠ root := fun heq => h.free (heq ▸ hb)

theorem depth_parent {b : ι} (hb : b ∈ nodes) :
    depth parent root b = depth parent root (parent b) + 1 := by
  obtain ⟨n, -, hn⟩ := h.reach b hb
  exact depth_eq_succ (h.ne_root hb) ⟨n, hn⟩

theorem depth_climb {b : ι} {j : ℕ} (hnodes : ∀ i < j, parent^[i] b ∈ nodes) :
    depth parent root b = depth parent root (parent^[j] b) + j := by
  induction j with
  | zero => rfl
  | succ j ih =>
    rw [ih fun i hi => hnodes i (hi.trans (Nat.lt_succ_self j)),
      h.depth_parent (hnodes j (Nat.lt_succ_self j)), ← Function.iterate_succ_apply' parent, Nat.add_assoc,
      Nat.add_comm 1 j]

theorem not_mem_below_self {b : ι} {n : ℕ} : b ∉ below kids n b := by
  intro hmem
  obtain ⟨j, hj, hnodes⟩ := climb_of_mem_below h.mem_kids hmem
  have hdepth := h.depth_climb (j := j + 1) fun i hi => hnodes i (Nat.le_of_lt_succ hi)
  rw [hj] at hdepth
  omega

/-- Two children of one parent have nothing below them in common. -/
theorem disjoint_below {a c c' : ι} {n : ℕ} (hc : c ∈ kids a) (hc' : c' ∈ kids a) (hne : c ≠ c') :
    List.Disjoint (c :: below kids n c) (c' :: below kids n c') := by
  have hclimb : ∀ {c b : ι}, c ∈ kids a → b ∈ c :: below kids n c →
      ∃ j, parent^[j] b = c ∧ ∀ i < j, parent^[i] b ∈ nodes := by
    intro c b _ hb
    rcases List.mem_cons.mp hb with rfl | hb
    · exact ⟨0, rfl, fun i hi => absurd hi (Nat.not_lt_zero i)⟩
    · obtain ⟨j, hj, hnodes⟩ := climb_of_mem_below h.mem_kids hb
      exact ⟨j + 1, hj, fun i hi => hnodes i (Nat.le_of_lt_succ hi)⟩
  intro b hb hb'
  obtain ⟨j, hj, hnodes⟩ := hclimb hc hb
  obtain ⟨j', hj', hnodes'⟩ := hclimb hc' hb'
  -- the children have the same depth, so both are as many steps up
  obtain ⟨hnode, hparent⟩ := (h.mem_kids a c).mp hc
  obtain ⟨hnode', hparent'⟩ := (h.mem_kids a c').mp hc'
  have hdepth := h.depth_climb hnodes
  have hdepth' := h.depth_climb hnodes'
  rw [hj, h.depth_parent hnode, hparent] at hdepth
  rw [hj', h.depth_parent hnode', hparent'] at hdepth'
  obtain rfl : j = j' := by omega
  exact hne (hj.symm.trans hj')

theorem below_nodup (n : ℕ) (a : ι) : (below kids n a).Nodup := by
  induction n generalizing a with
  | zero => exact List.nodup_nil
  | succ n ih =>
    rw [below, List.nodup_flatMap]
    refine ⟨fun c _ => List.nodup_cons.mpr ⟨h.not_mem_below_self, ih c⟩, ?_⟩
    exact (h.nodup a).pairwise_of_forall_ne fun c hc c' hc' hne => h.disjoint_below hc hc' hne

/-- A node that is few enough steps below `a` is listed. -/
theorem mem_below {b a : ι} {j n : ℕ} (hj : parent^[j + 1] b = a) (hle : j < n)
    (hnodes : ∀ i ≤ j, parent^[i] b ∈ nodes) : b ∈ below kids n a := by
  induction j generalizing a n with
  | zero =>
    obtain ⟨n, rfl⟩ := Nat.exists_eq_succ_of_ne_zero (Nat.ne_of_gt hle)
    exact List.mem_flatMap.mpr
      ⟨b, (h.mem_kids a b).mpr ⟨hnodes 0 (Nat.le_refl 0), hj⟩, List.mem_cons_self⟩
  | succ j ih =>
    obtain ⟨n, rfl⟩ := Nat.exists_eq_succ_of_ne_zero (Nat.ne_of_gt (Nat.zero_lt_of_lt hle))
    rw [Function.iterate_succ_apply'] at hj
    refine List.mem_flatMap.mpr ⟨parent^[j + 1] b,
      (h.mem_kids a _).mpr ⟨hnodes (j + 1) (Nat.le_refl _), hj⟩, List.mem_cons_of_mem _ ?_⟩
    exact ih rfl (Nat.lt_of_succ_lt_succ hle) fun i hi => hnodes i (Nat.le_succ_of_le hi)

theorem climb_mem {b : ι} (hb : b ∈ nodes) {i : ℕ} (hi : i < depth parent root b) :
    parent^[i] b ∈ nodes := by
  induction i with
  | zero => exact hb
  | succ i ih =>
    rw [Function.iterate_succ_apply']
    refine (h.up _ (ih (Nat.lt_of_succ_lt hi))).resolve_left fun hroot => ?_
    have hle : depth parent root b ≤ i + 1 :=
      depth_le ((Function.iterate_succ_apply' parent i b).trans hroot)
    omega

/-- The listing of the root has every node once. -/
theorem below_perm {n : ℕ} (hn : bound ≤ n) : (below kids n root).Perm nodes := by
  rw [List.perm_ext_iff_of_nodup (h.below_nodup n root) h.distinct]
  intro b
  constructor
  · intro hb
    obtain ⟨j, -, hnodes⟩ := climb_of_mem_below h.mem_kids hb
    exact hnodes 0 (Nat.zero_le j)
  · intro hb
    obtain ⟨m, hm, hroot⟩ := h.reach b hb
    have hdepth := h.depth_parent hb
    have hle : depth parent root b ≤ m := depth_le hroot
    refine h.mem_below (j := depth parent root (parent b)) ?_ (by omega) fun i hi =>
      h.climb_mem hb (by omega)
    rw [← hdepth]
    exact iterate_depth ⟨m, hroot⟩

end Rooted

/-! ### Passes -/

/-- Passes that say whether they changed anything, until one did not. -/
def saturate {σ : Type*} (pass : σ → σ × Bool) : ℕ → σ → σ
  | 0, s => s
  | n + 1, s => if (pass s).2 then saturate pass n (pass s).1 else (pass s).1

section Saturate

variable {σ : Type*} {pass : σ → σ × Bool} {inv : σ → Prop} {measure : σ → ℕ}

/-- Where a pass that changes something lowers a measure, the measure bounds the passes: nothing is
left to change. -/
theorem saturate_stable (hinv : ∀ s, inv s → inv (pass s).1)
    (hchange : ∀ s, inv s → (pass s).2 = true → measure (pass s).1 < measure s)
    (hstable : ∀ s, (pass s).2 = false → (pass s).1 = s) {n : ℕ} {s : σ} (hs : inv s)
    (hn : measure s ≤ n) :
    (pass (saturate pass n s)).2 = false := by
  induction n generalizing s with
  | zero =>
    cases hp : (pass s).2 with
    | false => exact hp
    | true => exact absurd (hchange s hs hp) (by omega)
  | succ n ih =>
    rw [saturate]
    cases hp : (pass s).2 with
    | false => rwa [if_neg Bool.false_ne_true, hstable s hp]
    | true =>
      rw [if_pos rfl]
      exact ih (hinv s hs) (by have := hchange s hs hp; omega)

theorem saturate_eq (hinv : ∀ s, inv s → inv (pass s).1)
    (hchange : ∀ s, inv s → (pass s).2 = true → measure (pass s).1 < measure s)
    (hstable : ∀ s, (pass s).2 = false → (pass s).1 = s) {n m : ℕ} {s : σ} (hs : inv s)
    (hn : measure s ≤ n) (hnm : n ≤ m) : saturate pass m s = saturate pass n s := by
  induction n generalizing s m with
  | zero =>
    cases m with
    | zero => rfl
    | succ m =>
      cases hp : (pass s).2 with
      | false =>
        show (if (pass s).2 then saturate pass m (pass s).1 else (pass s).1) = s
        rw [hp, if_neg Bool.false_ne_true, hstable s hp]
      | true => exact absurd (hchange s hs hp) (by omega)
  | succ n ih =>
    obtain ⟨m, rfl⟩ := Nat.exists_eq_succ_of_ne_zero (n := m) (by omega)
    rw [saturate, saturate]
    cases hp : (pass s).2 with
    | false => rfl
    | true =>
      rw [if_pos rfl, if_pos rfl]
      exact ih (hinv s hs) (by have := hchange s hs hp; omega) (by omega)

end Saturate

end Forest
