import FsRover.Lib.Outcome
import Mathlib.Order.Lattice

/-!
# Walks over a range of keys

A node of a search tree lists its children with the first key below each. A walk over a range passes
over the children whose right neighbour begins before the range, and ends at the first that begins
behind it.

## Main definitions

* `RangeWalk.within` : the items in a range.
* `RangeWalk.visited` : the children that a walk goes down to.
* `RangeWalk.feed` : hand over items one after the other, until told to stop.

## Main results

* `RangeWalk.visited_within` : nothing in the range is passed over, equal keys or not.
* `RangeWalk.feed_flatMap` : visiting children is being handed what is below them.
-/

namespace RangeWalk

section Range

variable {κ α β : Type*} [LinearOrder κ]

/-- The items whose keys are from `lo` to `hi`. -/
def within (lo hi : κ) (key : α → κ) (l : List α) : List α :=
  l.filter fun a => decide (lo ≤ key a) && decide (key a ≤ hi)

/-- The children that a walk from `lo` to `hi` goes down to. -/
def visited (lo hi : κ) (first : β → κ) : List β → List β
  | [] => []
  | c :: cs =>
    if hi < first c then []
    else if cs.head?.any fun d => decide (first d < lo) then visited lo hi first cs
    else c :: visited lo hi first cs

variable {lo hi : κ} {key : α → κ} {first : β → κ} {items : β → List α} {cs : List β}

theorem mem_within {l : List α} {a : α} : a ∈ within lo hi key l ↔ a ∈ l ∧ lo ≤ key a ∧ key a ≤ hi := by
  rw [within, List.mem_filter, Bool.and_eq_true, decide_eq_true_eq, decide_eq_true_eq]

theorem within_append (l l' : List α) :
    within lo hi key (l ++ l') = within lo hi key l ++ within lo hi key l' := List.filter_append ..

theorem within_eq_nil {l : List α} (h : ∀ a ∈ l, key a < lo ∨ hi < key a) :
    within lo hi key l = [] := by
  rw [List.eq_nil_iff_forall_not_mem]
  intro a ha
  obtain ⟨hmem, hlo, hhi⟩ := mem_within.mp ha
  rcases h a hmem with h | h
  · exact absurd hlo (not_le_of_gt h)
  · exact absurd hhi (not_le_of_gt h)

theorem mem_visited {c : β} (h : c ∈ visited lo hi first cs) : c ∈ cs ∧ first c ≤ hi := by
  induction cs with
  | nil => cases h
  | cons d cs ih =>
    rw [visited] at h
    split_ifs at h with hend hskip
    · cases h
    · exact ⟨List.mem_cons_of_mem _ (ih h).1, (ih h).2⟩
    · rcases List.mem_cons.mp h with rfl | h
      · exact ⟨List.mem_cons_self, le_of_not_gt hend⟩
      · exact ⟨List.mem_cons_of_mem _ (ih h).1, (ih h).2⟩

/-- Where the items are in order, a walk meets those in the range, in this order. -/
theorem visited_within (hsorted : (cs.flatMap items).Pairwise fun a b => key a ≤ key b)
    (hfirst : ∀ c ∈ cs, (items c).head?.map key = some (first c)) :
    (visited lo hi first cs).flatMap (fun c => within lo hi key (items c))
      = within lo hi key (cs.flatMap items) := by
  induction cs with
  | nil => rfl
  | cons c cs ih =>
    rw [List.flatMap_cons] at hsorted
    obtain ⟨-, hrest, hacross⟩ := List.pairwise_append.mp hsorted
    have hih := ih hrest fun d hd => hfirst d (List.mem_cons_of_mem _ hd)
    rw [visited]
    by_cases hend : hi < first c
    · -- everything from here on is behind the range
      rw [if_pos hend, List.flatMap_nil]
      refine (within_eq_nil fun a ha => .inr (lt_of_lt_of_le hend ?_)).symm
      have hc := hfirst c List.mem_cons_self
      cases hitems : items c with
      | nil => simp [hitems] at hc
      | cons b l =>
        rw [hitems, List.head?_cons, Option.map_some, Option.some.injEq] at hc
        rw [hitems, List.cons_append] at hsorted
        rw [List.flatMap_cons, hitems, List.cons_append] at ha
        rcases List.mem_cons.mp ha with rfl | ha
        · exact le_of_eq hc.symm
        · exact hc ▸ (List.pairwise_cons.mp hsorted).1 a ha
    rw [if_neg hend, List.flatMap_cons, within_append]
    by_cases hskip : cs.head?.any (fun d => decide (first d < lo)) = true
    · -- everything below the child is before its neighbour, and so before the range
      rw [if_pos hskip, hih]
      have hbefore : within lo hi key (items c) = [] := by
        refine within_eq_nil fun a ha => .inl ?_
        cases cs with
        | nil => cases hskip
        | cons d cs =>
          have hlt : first d < lo := by simpa using hskip
          have hd := hfirst d (List.mem_cons_of_mem _ List.mem_cons_self)
          cases hitems : items d with
          | nil => simp [hitems] at hd
          | cons b l =>
            rw [hitems, List.head?_cons, Option.map_some, Option.some.injEq] at hd
            refine lt_of_le_of_lt (hacross a ha b ?_) (hd ▸ hlt)
            rw [List.flatMap_cons, hitems]
            exact List.mem_append_left _ List.mem_cons_self
      rw [hbefore, List.nil_append]
    · rw [if_neg hskip, List.flatMap_cons, hih]

end Range

/-! ### Handing over items -/

section Feed

open Outcome

variable {ε σ α β : Type} {visit : α → σ → Outcome ε (σ × Bool)}

/-- Hand over the items, until a visit says to stop. -/
def feed (visit : α → σ → Outcome ε (σ × Bool)) : List α → σ → Outcome ε (σ × Bool)
  | [], s => done (s, false)
  | a :: l, s => visit a s >>= fun r => if r.2 then done r else feed visit l r.1

theorem feed_cons (a : α) (l : List α) (s : σ) : feed visit (a :: l) s
    = visit a s >>= fun r => if r.2 then done r else feed visit l r.1 := rfl

theorem bind_feed_assoc {x : Outcome ε (σ × Bool)} {f g : σ → Outcome ε (σ × Bool)} :
    ((x >>= fun r => if r.2 then done r else f r.1) >>= fun r => if r.2 then done r else g r.1)
      = x >>= fun r => if r.2 then done r else f r.1 >>= fun r => if r.2 then done r else g r.1 := by
  cases x with
  | done r =>
    simp only [done_bind]
    split_ifs with h
    · simp [h]
    · rfl
  | _ => rfl

theorem feed_append (l l' : List α) (s : σ) : feed visit (l ++ l') s
    = feed visit l s >>= fun r => if r.2 then done r else feed visit l' r.1 := by
  induction l generalizing s with
  | nil => rfl
  | cons a l ih =>
    rw [List.cons_append, feed_cons, feed_cons, bind_feed_assoc]
    simp only [ih]

/-- Visits that hand over what is below a child. -/
theorem feed_flatMap {below : β → σ → Outcome ε (σ × Bool)} {f : β → List α} {cs : List β}
    (h : ∀ c ∈ cs, ∀ s, below c s = feed visit (f c) s) (s : σ) :
    feed below cs s = feed visit (cs.flatMap f) s := by
  induction cs generalizing s with
  | nil => rfl
  | cons c cs ih =>
    rw [List.flatMap_cons, feed_append, feed_cons, h c List.mem_cons_self]
    simp only [ih fun d hd => h d (List.mem_cons_of_mem _ hd)]

theorem feed_ends {P : σ → Prop} {l : List α} {s : σ} (hs : P s)
    (h : ∀ a ∈ l, ∀ s, P s → (visit a s).Ends fun r => P r.1) :
    (feed visit l s).Ends fun r => P r.1 := by
  induction l generalizing s with
  | nil => exact hs
  | cons a l ih =>
    rw [feed_cons]
    refine (h a List.mem_cons_self s hs).bind fun r hr => ?_
    split_ifs
    · exact hr
    · exact ih hr fun b hb => h b (List.mem_cons_of_mem _ hb)

end Feed

end RangeWalk
