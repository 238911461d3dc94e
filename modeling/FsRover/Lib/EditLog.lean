import Mathlib.Data.Nat.Notation
import Mathlib.Tactic.Common

/-!
# Logs of edits

A log creates, deletes and fills the positions of a list. The list is found by replaying the log;
one position is found by walking the log back, and following the position through the edits.

## Main definitions

* `EditLog.Edit`, `EditLog.step`, `EditLog.replay` : edits, and their effect on a list.
* `EditLog.lookBack` : the walk back.

## Main results

* `EditLog.lookBack_eq` : the walk back finds what the replay has at the position.
-/

namespace EditLog

variable {β : Type}

/-- An edit of a list whose positions are filled or empty. `grow i` makes position `i` if it is the
first one past the end. -/
inductive Edit (β : Type)
  | create (i : ℕ)
  | delete (i : ℕ)
  | put (i : ℕ) (v : Option β)
  | grow (i : ℕ)
  | skip

/-- The effect of an edit, if its position is one of the list. -/
def step (es : List (Option β)) : Edit β → Option (List (Option β))
  | .create i => if i ≤ es.length then some (es.insertIdx i none) else none
  | .delete i => if i < es.length then some (es.eraseIdx i) else none
  | .put i v => if i < es.length then some (es.set i v) else none
  | .grow i =>
    if i < es.length then some es else if i = es.length then some (es ++ [none]) else none
  | .skip => some es

/-- The list after a log, which has its newest edit in front. -/
def replay : List (Edit β) → Option (List (Option β))
  | [] => some []
  | e :: log => (replay log).bind (step · e)

/-- What position `t` holds after the log. -/
def lookBack : List (Edit β) → ℕ → Option β
  | [], _ => none
  | .create i :: log, t =>
    if t = i then none else if i < t then lookBack log (t - 1) else lookBack log t
  | .delete i :: log, t => if i ≤ t then lookBack log (t + 1) else lookBack log t
  | .put i v :: log, t => if t = i then v else lookBack log t
  | .grow _ :: log, t => lookBack log t
  | .skip :: log, t => lookBack log t

/-- The walk back finds what the replay has at the position; past the end that is nothing. -/
theorem lookBack_eq {log : List (Edit β)} {es : List (Option β)} (h : replay log = some es)
  (t : ℕ) :
    lookBack log t = es[t]?.join := by
  induction log generalizing es t with
  | nil =>
    obtain rfl := Option.some.inj h
    rfl
  | cons e log ih =>
    obtain ⟨old, hold, hstep⟩ := Option.bind_eq_some_iff.mp h
    have hback := ih hold
    cases e with
    | create i =>
      rw [step] at hstep
      split_ifs at hstep with hi
      obtain rfl := Option.some.inj hstep
      rw [lookBack, List.getElem?_insertIdx]
      by_cases hlt : t < i
      · rw [if_neg (by omega), if_neg (by omega), if_pos hlt, hback]
      · by_cases heq : t = i
        · rw [if_pos heq, if_neg hlt, if_pos heq, if_pos (by omega)]
          rfl
        · rw [if_neg heq, if_pos (by omega), if_neg hlt, if_neg heq, hback]
    | delete i =>
      rw [step] at hstep
      split_ifs at hstep with hi
      obtain rfl := Option.some.inj hstep
      rw [lookBack, List.getElem?_eraseIdx]
      by_cases hle : i ≤ t
      · rw [if_pos hle, if_neg (by omega), hback]
      · rw [if_neg hle, if_pos (by omega), hback]
    | put i v =>
      rw [step] at hstep
      split_ifs at hstep with hi
      obtain rfl := Option.some.inj hstep
      rw [lookBack, List.getElem?_set]
      by_cases heq : t = i
      · rw [if_pos heq, if_pos heq.symm, if_pos (by omega)]
        rfl
      · rw [if_neg heq, if_neg (Ne.symm heq), hback]
    | grow i =>
      rw [step] at hstep
      rw [lookBack, hback]
      split_ifs at hstep with hi hend
      · rw [Option.some.inj hstep]
      · obtain rfl := Option.some.inj hstep
        rcases Nat.lt_trichotomy t old.length with hlt | rfl | hgt
        · rw [List.getElem?_append_left hlt]
        · rw [List.getElem?_eq_none (Nat.le_refl _), List.getElem?_append_right (Nat.le_refl _),
            Nat.sub_self]
          rfl
        · rw [List.getElem?_eq_none (by omega), List.getElem?_eq_none]
          rw [List.length_append, List.length_singleton]
          omega
    | skip =>
      obtain rfl := Option.some.inj hstep
      rw [lookBack, hback]

end EditLog
